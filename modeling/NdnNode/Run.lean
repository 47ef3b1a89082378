import NdnNode.Sweep

/-!
# Runs of a node

A program using the node does four things to it: it calls it, time passes, and, while the event
loop runs, the transport delivers an element (`onReceiveElement`) or the timer fires
(`checkPitExpire`, then re-arm).  `Step` is one of these, with the application code the node then
calls running as `Runs`; `Reachable` is every state some run from a fresh node reaches without
undefined behaviour: a read past the end of the PIT, or an erase loop whose bound overflows.

The runs at the end of this file are the ones where the node does not do what its spec says:

* a timeout that cancels another entry leaves the sweep's index past the end of the table
  (`checkPitExpire_reads_past_end`);
* the ndnd-ID probe of a registration that was cancelled still registers the prefix when its
  reply comes (`registerPrefix_probe_after_removal`);
* on a PIT of `2^31 + 1` entries, `removePendingInterest` removes nothing, and the entry it was
  asked to cancel is satisfied afterwards (`removePendingInterest_large_table_fires`);
* on a PIT of `2^31 + 1` entries, the sweep retires none of those that are due
  (`checkPitExpire_large_table`);
* a Data packet for an entry expressed without callbacks throws `bad_function_call`, where a
  timeout of the same entry is retired quietly (`onReceiveElement_absent_onData_raises`).
-/

set_option autoImplicit false

namespace Ndn

open scoped List

/-- One step of a program using the node: a call (from the application's own code), time
passing, an element arriving, or the timer firing; the last two only while the event loop runs,
an element only over a connected transport. -/
inductive Step (codec : Codec) : Node → Node → Outcome → Prop
  | call (s : Node) (link : Link) (c : Call) :
      Step codec s (s.call codec link c).1 (s.call codec link c).2
  | elapse (s : Node) (d : Nat) : Step codec s (s.elapse d) .ok
  | receive (s t : Node) (link : Link) (b : Block) (hrun : s.stopped = false)
      (hcon : s.connected = true)
      (hcb : AfterCall (Runs codec)
        ((s.onReceiveElement codec link b).1, (s.onReceiveElement codec link b).2.1) t) :
      Step codec s t (s.onReceiveElement codec link b).2.2
  | tick (s t : Node) (o : Outcome) (hrun : s.stopped = false) (hdue : s.timerExpiry ≤ s.clock)
      (hsweep : CheckPitExpire (Runs codec) s t o) : Step codec s t.rearm o

/-- The states a fresh node reaches, the id counters starting wherever earlier nodes left them,
along steps none of which is undefined. -/
inductive Reachable (codec : Codec) : Node → Prop
  | init (lastPendingInterestId lastRegisteredPrefixId : Nat) (clock : Int) :
      Reachable codec (Node.init lastPendingInterestId lastRegisteredPrefixId clock)
  | step {s t : Node} {o : Outcome} (hs : Reachable codec s) (h : Step codec s t o)
      (ho : o ≠ .undefined) : Reachable codec t

theorem Reachable.call {codec : Codec} {s : Node} (hs : Reachable codec s) (link : Link)
    (c : Call) (hdef : (s.call codec link c).2 ≠ .undefined) : Reachable codec (s.call codec link c).1 :=
  hs.step (.call s link c) hdef

theorem Node.call_expressInterest_ne_undefined (s : Node) (codec : Codec) (link : Link)
    (interest : Interest) (onData onTimeout : Callback) :
    (s.call codec link (.expressInterest interest onData onTimeout)).2 ≠ .undefined := by
  simp [Node.call_eq_undefined_iff]

theorem Reachable.elapse {codec : Codec} {s : Node} (hs : Reachable codec s) (d : Nat) :
    Reachable codec (s.elapse d) :=
  hs.step (.elapse s d) Outcome.noConfusion

/-! ## Where the node goes wrong -/

section Counterexamples

/-- The transport connecting and sending without error. -/
def okLink : Link := ⟨true, true⟩

/-- An Interest for the empty name, which every Data packet satisfies, with lifetime 0. -/
def anyInterest : Interest := ⟨⟨[]⟩, 0, -1⟩

/-- Entries `A` and `B`, timed out together; `B`'s timeout cancels `A`, so the sweep then reads
index 0 of an empty table. -/
theorem checkPitExpire_reads_past_end :
    ∃ s t, Reachable emptyCodec s ∧ s.pendingInterestTable.length = 2 ∧
      (∀ e ∈ s.pendingInterestTable, e.isTimedOut s.clock = true) ∧ Step emptyCodec s t .undefined := by
  let s₁ := ((Node.init 0 0 0).call emptyCodec okLink (.expressInterest anyInterest none none)).1
  let s₂ := (s₁.call emptyCodec okLink (.expressInterest anyInterest none (some 0))).1
  let s := s₂.elapse 100
  let u := ((s.expire 1 (s₁.newPendingInterest anyInterest (.app none) (.app (some 0))) 100).call
    emptyCodec okLink (.removePendingInterest 1)).1
  refine ⟨s, (u.elapse 0).rearm,
    (((Reachable.init 0 0 0).call _ _ (by decide)).call _ _ (by decide)).elapse 100, rfl,
    by decide, .tick s _ _ rfl (by decide) (.of_sweep rfl ?_)⟩
  exact .expire 1 100 s u _ 0 _ _ rfl rfl (.single (.call _ _ _ (by decide)))
    (.outOfRange 0 _ _ (by decide))

/-- The reply to the ndnd-ID probe of registration 1 comes after `removeRegisteredPrefix(1)`, and
the fetcher puts the prefix into the RPT under id 1. -/
theorem registerPrefix_probe_after_removal :
    ∃ s, Reachable emptyCodec s ∧ (∃ l₁ l₂, s.log = l₁ ++ .unregister 1 :: l₂) ∧
      ∃ e ∈ s.registeredPrefixTable, e.getRegisteredPrefixId = 1 := by
  let s₁ := ((Node.init 0 0 0).call emptyCodec okLink
    (.registerPrefix anyInterest.name (some 0) none ⟨0⟩)).1
  let s₂ := (s₁.call emptyCodec okLink (.removeRegisteredPrefix 1)).1
  let reply : Data := { name := ndndIdFetcherInterest.name, signature := { keyLocator := [1] } }
  refine ⟨(s₂.onReceiveElement emptyCodec okLink (.data reply)).1,
    ((Reachable.init 0 0 0).call _ _ (by decide)).call _ _ (by decide) |>.step
      (.receive s₂ _ okLink (.data reply) rfl rfl rfl) (by decide), ⟨s₁.log, _, rfl⟩, by decide⟩

/-- An Interest expressed with neither callback.  A Data packet for it takes the entry out, then
calls the empty `onData`, which throws `bad_function_call` out of `onReceiveElement`; had the entry
timed out instead, the sweep would have retired it without raising and gone on. -/
theorem onReceiveElement_absent_onData_raises :
    ∃ s, Reachable emptyCodec s ∧
      (∃ e ∈ s.pendingInterestTable, e.onData = .app none ∧ e.onTimeout = .app none) ∧
      (s.onReceiveElement emptyCodec okLink (.data {})).1.pendingInterestTable = [] ∧
      (s.onReceiveElement emptyCodec okLink (.data {})).2.2 = .raised .badFunctionCall ∧
      ∀ cb, ∃ s', CheckPitExpire cb (s.elapse 100) s' .ok ∧ s'.pendingInterestTable = [] := by
  let s := ((Node.init 0 0 0).call emptyCodec okLink (.expressInterest anyInterest none none)).1
  let e := (Node.init 0 0 0).newPendingInterest anyInterest (.app none) (.app none)
  refine ⟨s, (Reachable.init 0 0 0).call okLink _ (by decide), ⟨e, by decide, rfl, rfl⟩, rfl, rfl,
    fun cb => ⟨_, .of_sweep rfl (.expire 0 100 _ _ _ 0 .ok e rfl rfl rfl (.finish _ _)), rfl⟩⟩

/-- `n` calls of `c` in a row. -/
def Node.callRepeatedly (s : Node) (codec : Codec) (link : Link) (c : Call) (n : Nat) : Node :=
  (fun u => (u.call codec link c).1)^[n] s

theorem Reachable.callRepeatedly {codec : Codec} {s : Node} (hs : Reachable codec s)
    (link : Link) (c : Call) (hdef : ∀ u : Node, (u.call codec link c).2 ≠ .undefined) :
    ∀ n, Reachable codec (s.callRepeatedly codec link c n)
  | 0 => hs
  | n + 1 => by
    rw [Node.callRepeatedly, Function.iterate_succ_apply']
    exact (hs.callRepeatedly link c hdef n).call link c (hdef _)

theorem call_expressInterest_okLink (s : Node) (codec : Codec) (i : Interest) (d t : Callback) :
    (s.call codec okLink (.expressInterest i d t)).1 =
      (s.connect.pushPendingInterest i (.app d) (.app t)).record (.send i) := by
  simp [Node.call, Node.expressInterest, okLink]

/-- `n` calls of `expressInterest` that all connect and send append `n` entries, extend the log,
and leave the node connected and running. -/
theorem callRepeatedly_expressInterest (codec : Codec) (i : Interest) (d t : Callback) :
    ∀ (n : Nat) (s : Node), s.connected = true →
      ∃ X evs,
        (s.callRepeatedly codec okLink (.expressInterest i d t) n).pendingInterestTable =
          s.pendingInterestTable ++ X ∧ X.length = n ∧
        (s.callRepeatedly codec okLink (.expressInterest i d t) n).log = s.log ++ evs ∧
        (s.callRepeatedly codec okLink (.expressInterest i d t) n).connected = true ∧
        (s.callRepeatedly codec okLink (.expressInterest i d t) n).stopped = s.stopped ∧
        (s.callRepeatedly codec okLink (.expressInterest i d t) n).clock = s.clock
  | 0, s, hc =>
    ⟨[], [], by simp [Node.callRepeatedly], rfl, by simp [Node.callRepeatedly], hc, rfl, rfl⟩
  | n + 1, s, hc => by
    obtain ⟨X, evs, hp, hl, hlog, hc', hst, hclock⟩ :=
      callRepeatedly_expressInterest codec i d t n s hc
    rw [Node.callRepeatedly, Function.iterate_succ_apply', call_expressInterest_okLink]
    rw [Node.callRepeatedly] at hp hlog hc' hst hclock
    generalize (fun u => (u.call codec okLink (.expressInterest i d t)).1)^[n] s = u at *
    let e := u.newPendingInterest i (.app d) (.app t)
    exact ⟨X ++ [e], evs ++ [.express e, .send i], by simp [hp, e], by simp [hl], by simp [hlog, e],
      rfl, by simp [hst], by simp [hclock]⟩

theorem Node.onReceiveElement_data_first {s : Node} {e : PendingInterest}
    {X : List PendingInterest} (codec : Codec) (link : Link) (data : Data) (c : Nat)
    (hpit : s.pendingInterestTable = e :: X) (hm : e.interest.matchesName data.name = true)
    (hd : e.onData = .app (some c)) :
    s.onReceiveElement codec link (.data data) = (s.satisfy 0 e, true, .ok) := by
  simp [Node.onReceiveElement, hpit, getEntryIndexForExpressedInterest, hm, Node.callOnData, hd]

/-- On a reachable node whose PIT holds `2^31 + 1` entries, the first being `e`,
`removePendingInterest` of `e`'s id removes nothing, and a Data packet `e` matches then
satisfies `e`. -/
theorem fires_after_large_cancel {s : Node} {e : PendingInterest} {X : List PendingInterest}
    (hs : Reachable emptyCodec s) (hpit : s.pendingInterestTable = e :: X)
    (hsize : s.pendingInterestTable.length = 2 ^ 31 + 1) (hcon : s.connected = true)
    (hstop : s.stopped = false) (hm : e.interest.matchesName ({} : Data).name = true)
    (hd : e.onData = .app (some 0)) :
    ∃ t l₂, Reachable emptyCodec t ∧
      t.log = s.log ++ .cancel e.getPendingInterestId (2 ^ 31 + 1) :: l₂ ∧ Event.onData e ∈ l₂ := by
  -- `(int)size` is `INT_MIN + 1`: the bound `INT_MIN` is defined and the loop does not run
  have h0 : loopCount (2 ^ 31 + 1) = 0 := by decide
  have hpit₃ : (s.removePendingInterest e.getPendingInterestId).pendingInterestTable = e :: X := by
    show eraseIds _ _ (loopCount s.pendingInterestTable.length) s.pendingInterestTable = _
    rw [hsize, h0, eraseIds, hpit]
  have hrecv := Node.onReceiveElement_data_first emptyCodec okLink {} 0 hpit₃ hm hd
  have hs₃ : Reachable emptyCodec (s.removePendingInterest e.getPendingInterestId) :=
    hs.call okLink (.removePendingInterest _) (by simp only [Node.call, hsize]; decide)
  refine ⟨(s.removePendingInterest e.getPendingInterestId).satisfy 0 e, [.onData e],
    hs₃.step (.receive _ _ okLink (.data {}) hstop hcon ?_) (by rw [hrecv]; exact Outcome.noConfusion),
    by simp [Node.satisfy, hsize], List.mem_singleton_self _⟩
  rw [hrecv]
  exact .refl

/-- `removePendingInterest(1)` on a PIT of `2^31 + 1` entries: `(int)size - 1` is `INT_MIN`,
the loop does not run, and entry 1 is satisfied by the next Data packet. -/
theorem removePendingInterest_large_table_fires :
    ∃ s l₁ l₂ e, Reachable emptyCodec s ∧
      s.log = l₁ ++ .cancel e.getPendingInterestId (2 ^ 31 + 1) :: l₂ ∧
      Event.express e ∈ l₁ ∧ Event.onData e ∈ l₂ := by
  have hs₁ : Reachable emptyCodec ((Node.init 0 0 0).call emptyCodec okLink
      (.expressInterest anyInterest (some 0) none)).1 :=
    (Reachable.init 0 0 0).call okLink _ (Node.call_expressInterest_ne_undefined _ _ _ _ _ _)
  obtain ⟨X, evs, hpit, hlen, hlog, hcon, hstop, -⟩ :=
    callRepeatedly_expressInterest emptyCodec anyInterest (some 0) none (2 ^ 31)
      ((Node.init 0 0 0).call emptyCodec okLink (.expressInterest anyInterest (some 0) none)).1 rfl
  have hsize := congrArg List.length hpit
  rw [List.length_append, hlen] at hsize
  obtain ⟨t, l₂, ht, htlog, hmem⟩ := fires_after_large_cancel
    (hs₁.callRepeatedly okLink (.expressInterest anyInterest (some 0) none)
      (fun u => u.call_expressInterest_ne_undefined _ _ _ _ _) (2 ^ 31)) hpit
    (hsize.trans (Nat.add_comm _ _)) hcon hstop (by decide) rfl
  exact ⟨t, _, l₂, _, ht, htlog, by rw [hlog]; exact List.mem_append_left _ (by decide), hmem⟩

/-- On a reachable node whose PIT holds `2^31 + 1` entries, the first being `e` and due 100 ms
later, every sweep then leaves the node as it was. -/
theorem sweep_skips_large_table {u : Node} {e : PendingInterest} {X : List PendingInterest}
    (hu : Reachable emptyCodec u) (hpit : u.pendingInterestTable = [e] ++ X)
    (hsize : u.pendingInterestTable.length = 2 ^ 31 + 1)
    (hto : e.isTimedOut (u.elapse 100).clock = true) :
    ∃ s, Reachable emptyCodec s ∧ s.pendingInterestTable.length = 2 ^ 31 + 1 ∧
      (∃ e ∈ s.pendingInterestTable, e.isTimedOut s.clock = true) ∧
      ∀ cb s' o, CheckPitExpire cb s s' o → s' = s ∧ o = .ok := by
  have h0 : loopCount (2 ^ 31 + 1) = 0 := by decide
  refine ⟨u.elapse 100, hu.elapse 100, hsize, ⟨e, by simp [hpit], hto⟩, fun cb s' o h => ?_⟩
  exact checkPitExpire_of_loopCount_eq_zero
    (by rw [Node.elapse_pendingInterestTable, hsize]; decide)
    (by rw [Node.elapse_pendingInterestTable, hsize, h0]) h

/-- A fresh node expresses `2^31 + 1` Interests of lifetime 0; 100 ms later the first has timed
out, but `(int)size - 1` is negative, the sweep's loop does not run, and the node is left as it
was. -/
theorem checkPitExpire_large_table :
    ∃ s, Reachable emptyCodec s ∧ s.pendingInterestTable.length = 2 ^ 31 + 1 ∧
      (∃ e ∈ s.pendingInterestTable, e.isTimedOut s.clock = true) ∧
      ∀ cb s' o, CheckPitExpire cb s s' o → s' = s ∧ o = .ok := by
  have hs₁ : Reachable emptyCodec ((Node.init 0 0 0).call emptyCodec okLink
      (.expressInterest anyInterest none none)).1 :=
    (Reachable.init 0 0 0).call okLink _ (Node.call_expressInterest_ne_undefined _ _ _ _ _ _)
  obtain ⟨X, evs, hpit, hlen, -, -, -, hclock⟩ :=
    callRepeatedly_expressInterest emptyCodec anyInterest none none (2 ^ 31)
      ((Node.init 0 0 0).call emptyCodec okLink (.expressInterest anyInterest none none)).1 rfl
  have hsize := congrArg List.length hpit
  rw [List.length_append, hlen] at hsize
  exact sweep_skips_large_table
    (hs₁.callRepeatedly okLink _ (fun u => u.call_expressInterest_ne_undefined _ _ _ _ _) (2 ^ 31))
    hpit hsize
    (by rw [Node.elapse_clock, hclock]; rfl)

end Counterexamples

end Ndn
