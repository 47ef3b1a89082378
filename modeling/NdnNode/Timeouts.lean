import NdnNode.Preserved
import NdnNode.Invariant

/-!
# Timeouts over whole runs

The spec's timer monotonicity (§8) has two halves: no entry times out before its deadline, and no
entry whose deadline has passed survives the tick.  `Sweep.spec` (`NdnNode.Sweep`) proves both
for one sweep whose callbacks only append to the PIT.  Here the callbacks may do anything the
code lets them — express, cancel, register, let time pass — and the first half is carried over
whole runs.

* `timeouts_on_time`: in every run, each `callTimeout` is made at a clock reading at or after its
  entry's deadline, and the readings never go back.  It holds step by step: `checkPitExpire`
  tests each entry against the reading it erases it at, and the clock only moves forward
  (`Preserved`).
* `checkPitExpire_retires_due`: below `2^31` entries, a sweep either reads past the end (the run
  of `checkPitExpire_reads_past_end`) or leaves no entry that was due when it started.  A callback
  can take entries out and shift the ones after them down, so an index may be visited twice
  (`checkPitExpire_two_entries`), but never skipped; and what a callback adds has a new id.  The
  loop invariant (`Sweep.retires_due`) splits the table into the indices still to visit and a
  rest holding nothing that was due.
* `tick_ends_normally_iff`: the event loop never stalls.  The timer is always due within 100 ms,
  since `checkPitExpire` re-arms it each time and nothing else touches it, and a due tick can run
  to its end exactly when the bound of its loop does not overflow: `Sweep.exists_ok` builds the
  sweep, which also shows that the relation `Sweep` the results above quantify over is never
  empty.
-/

set_option autoImplicit false

namespace Ndn

open scoped List

/-! ## No timeout before its deadline -/

/-- The timeouts a node has called were on time: each at a clock reading at or after its entry's
deadline and not after the clock now, the readings, in the order of the calls, never going
back. -/
def TimeoutsOnTime (s : Node) : Prop :=
  (s.log.filterMap Event.timeoutReading?).Pairwise (· ≤ ·) ∧
    ∀ e c, Event.onTimeout e c ∈ s.log → e.timeoutTimeMilliseconds ≤ c ∧ c ≤ s.clock

theorem Event.timeoutReading?_eq_some {ev : Event} {c : Int} (h : ev.timeoutReading? = some c) :
    ∃ e, ev = .onTimeout e c := by
  cases ev <;> simp_all [Event.timeoutReading?]

/-- Events that retire nothing by timeout, and a clock that does not go back, keep the
timeouts on time. -/
theorem TimeoutsOnTime.append {s t : Node} (h : TimeoutsOnTime s) {evs : List Event}
    (hl : t.log = s.log ++ evs) (hx : evs.filterMap Event.expired? = [])
    (hc : s.clock ≤ t.clock) :
    TimeoutsOnTime t := by
  have hnot : ∀ e c, Event.onTimeout e c ∉ evs := fun e c hm =>
    absurd (List.filterMap_eq_nil_iff.1 hx _ hm) (by simp [Event.expired?])
  have hr : evs.filterMap Event.timeoutReading? = [] := List.filterMap_eq_nil_iff.2 fun ev hev => by
    cases hc' : ev.timeoutReading? with
    | none => rfl
    | some c =>
      obtain ⟨e, rfl⟩ := Event.timeoutReading?_eq_some hc'
      exact absurd hev (hnot e c)
  refine ⟨by rw [hl, List.filterMap_append, hr, List.append_nil]; exact h.1, fun e c hm => ?_⟩
  rw [hl] at hm
  rcases List.mem_append.1 hm with hm | hm
  · obtain ⟨hd, hle⟩ := h.2 e c hm
    exact ⟨hd, Int.le_trans hle hc⟩
  · exact absurd hm (hnot e c)

/-- Erasing a due entry at the clock reading keeps the timeouts on time. -/
theorem TimeoutsOnTime.expire {s : Node} (h : TimeoutsOnTime s) (n : Nat) {e : PendingInterest}
    (hto : e.isTimedOut s.clock = true) : TimeoutsOnTime (s.expire n e s.clock) := by
  have hdue : e.timeoutTimeMilliseconds ≤ s.clock := by
    simpa [PendingInterest.isTimedOut] using hto
  have hold : ∀ c ∈ s.log.filterMap Event.timeoutReading?, c ≤ s.clock := fun c hc => by
    obtain ⟨ev, hev, hc⟩ := List.mem_filterMap.1 hc
    obtain ⟨e', rfl⟩ := Event.timeoutReading?_eq_some hc
    exact (h.2 e' c hev).2
  refine ⟨?_, fun e' c hm => ?_⟩
  · simp only [Node.expire_log, List.filterMap_append, List.filterMap_cons,
      List.filterMap_nil, Event.timeoutReading?]
    exact List.pairwise_append.2 ⟨h.1, List.pairwise_singleton _ _,
      fun a ha b hb => (List.mem_singleton.1 hb) ▸ hold a ha⟩
  · simp only [Node.expire_log, List.mem_append, List.mem_singleton, Event.onTimeout.injEq,
      Node.expire_clock] at hm ⊢
    rcases hm with hm | ⟨rfl, rfl⟩
    exacts [h.2 e' c hm, ⟨hdue, Int.le_refl _⟩]

theorem timeoutsOnTime_preserved (codec : Codec) : Preserved codec TimeoutsOnTime where
  call s link c h := by
    obtain ⟨evs, hl, -, -, -, hx, hc⟩ := s.call_effect codec link c
    exact h.append hl hx (hc ▸ Int.le_refl _)
  elapse s d h := h.append (List.append_nil _).symm rfl (by simp only [Node.elapse_clock]; omega)
  receive s link b h := by
    obtain ⟨evs, hl, -, hx, -, hc, -⟩ := s.onReceiveElement_effect codec link b
    exact h.append hl hx (hc ▸ Int.le_refl _)
  timeout s n e _ hto h := by
    obtain ⟨evs, hl, -, hx, -, -, hc, -⟩ := (s.expire n e s.clock).callTimeout_effect e
    exact (h.expire n hto).append hl hx (by omega)
  rearm _ h := h

/-- **No timeout comes early.**  In every run, whatever the callbacks do in between, each
`callTimeout` is made at a clock reading at or after its entry's deadline, and no later than the
clock now; and the readings, in the order the timeouts were called, never go back. -/
theorem timeouts_on_time {codec : Codec} {s : Node} (hs : Reachable codec s) :
    (s.log.filterMap Event.timeoutReading?).Pairwise (· ≤ ·) ∧
      ∀ e c, Event.onTimeout e c ∈ s.log → e.timeoutTimeMilliseconds ≤ c ∧ c ≤ s.clock :=
  (timeoutsOnTime_preserved codec).reachable
    (fun _ _ _ => ⟨by simp [Node.init], by simp [Node.init]⟩) hs

/-- An Interest with lifetime 0, expressed at 0 and timed out by the tick at 100. -/
theorem timeouts_on_time_after_tick :
    let s := ((Node.init 0 0 0).call emptyCodec okLink
      (.expressInterest anyInterest none none)).1.elapse 100
    let e := (Node.init 0 0 0).newPendingInterest anyInterest (.app none) (.app none)
    let t := ((s.expire 0 e 100).elapse 0).rearm
    Reachable emptyCodec t ∧ Event.onTimeout e 100 ∈ t.log ∧
      e.timeoutTimeMilliseconds ≤ 100 ∧ 100 ≤ t.clock := by
  intro s e t
  have hs : Reachable emptyCodec t :=
    (((Reachable.init 0 0 0).call okLink _ (by decide)).elapse 100).step
      (.tick s _ .ok rfl (by decide) (.of_sweep rfl (.expire 0 100 s _ _ 0 .ok e rfl rfl rfl
        (.finish _ _))))
      Outcome.noConfusion
  have hm : Event.onTimeout e 100 ∈ t.log := by simp [t, Node.rearm]
  exact ⟨hs, hm, (timeouts_on_time hs).2 e 100 hm⟩

/-! ## Every due entry leaves at the tick -/

/-- Erasing index `n` of a table whose first `n + 1` entries are `pre` leaves at most `n` of
them in front, and a sublist of the rest behind. -/
theorem eraseIdx_append_split {α : Type} {pre post : List α} {n : Nat}
    (hn : pre.length ≤ n + 1) :
    ∃ pre' post', (pre ++ post).eraseIdx n = pre' ++ post' ∧ pre'.length ≤ n ∧
      post' <+ post := by
  by_cases h : pre.length = n + 1
  · exact ⟨pre.eraseIdx n, post, List.eraseIdx_append_of_lt_length (by omega) post,
      by rw [List.length_eraseIdx_of_lt (by omega)]; omega, .refl _⟩
  · exact ⟨pre, post.eraseIdx (n - pre.length),
      List.eraseIdx_append_of_length_le (by omega) post,
      by omega, List.eraseIdx_sublist _ _⟩

/-- **The sweep's loop invariant**, against the node `s₀` it started from.  The PIT splits into
`pre`, which holds the indices still to visit, and a rest holding no entry of `s₀` that was due
at `s₀`'s clock.  Each turn keeps it: a kept entry was not due, an erased one is gone, and a
callback only takes entries out and appends entries with new ids.  So a sweep that does not
read past the end leaves no due entry of `s₀`. -/
theorem Sweep.retires_due {codec : Codec} {n : Nat} {now : Int} {s s' : Node} {o : Outcome}
    (h : Sweep (Runs codec) n now s s' o) {s₀ : Node}
    (hfresh : ∀ x ∈ s₀.pendingInterestTable,
      x.pendingInterestId ≤ s₀.lastPendingInterestId) :
    s₀.lastPendingInterestId ≤ s.lastPendingInterestId →
    s₀.clock ≤ now → now ≤ s.clock →
    ∀ pre post, s.pendingInterestTable = pre ++ post → pre.length ≤ n →
      (∀ x ∈ post, x ∈ s₀.pendingInterestTable → s₀.clock < x.timeoutTimeMilliseconds) →
      o = .undefined ∨ o = .ok ∧ ∀ x ∈ s'.pendingInterestTable,
        x ∈ s₀.pendingInterestTable → s₀.clock < x.timeoutTimeMilliseconds := by
  induction h with
  | finish now s =>
    intro _ _ _ pre post hpit hn hpost
    obtain rfl := List.length_eq_zero.1 (Nat.le_zero.1 hn)
    exact .inr ⟨rfl, fun x hx => hpost x (by simpa [hpit] using hx)⟩
  | outOfRange => exact fun _ _ _ _ _ _ _ _ => .inl rfl
  | keep n now s s' o x hi hto _ ih =>
    intro hc hnow hclk pre post hpit hn hpost
    by_cases hlen : pre.length = n + 1
    · obtain ⟨pre, rfl, hn'⟩ := eq_concat_of_getElem? hpit hlen hi
      have hlive : now < x.timeoutTimeMilliseconds :=
        Int.not_le.1 (by simpa [PendingInterest.isTimedOut] using hto)
      refine ih hc hnow hclk pre (x :: post) (by simp [hpit]) (Nat.le_of_eq hn')
        fun y hy hy₀ => ?_
      rcases List.mem_cons.1 hy with rfl | hy
      exacts [Int.lt_of_le_of_lt hnow hlive, hpost y hy hy₀]
    · exact ih hc hnow hclk pre post hpit (by omega) hpost
  | expire n now s t s' d o x _ _ hcb _ ih =>
    intro hc hnow hclk pre post hpit hn hpost
    obtain ⟨pre₁, post₁, hsplit, hn₁, hpost₁⟩ :
        ∃ pre' post', (pre ++ post).eraseIdx n = pre' ++ post' ∧ pre'.length ≤ n ∧
          post' <+ post :=
      eraseIdx_append_split hn
    have hel : Edits t (t.elapse d) := Edits.of_eq rfl rfl (by simp only [Node.elapse_clock]; omega)
    obtain ⟨kept, new, hp', hk, hnew, hc', hl'⟩ := (AfterCall.callTimeout_edits hcb).trans hel
    rw [Node.expire_pendingInterestTable, hpit, hsplit, List.sublist_append_iff] at hk
    obtain ⟨a, b, rfl, ha, hb⟩ := hk
    simp only [Node.expire_lastPendingInterestId, Node.expire_clock] at hc' hl' hnew
    refine ih (Nat.le_trans hc hc') (by omega) (Int.le_refl _) a (b ++ new)
      (by rw [hp', List.append_assoc]) (Nat.le_trans ha.length_le hn₁) fun y hy hy₀ => ?_
    rcases List.mem_append.1 hy with hy | hy
    · exact hpost y (hpost₁.subset (hb.subset hy)) hy₀
    · have := hfresh y hy₀
      have := hnew y hy
      omega

/-- **Every due entry leaves at the tick, whatever the callbacks do.**  On a reachable node with
fewer than `2^31` PIT entries, `checkPitExpire` either reads past the end of the table, or ends
normally leaving in the PIT no entry that was there and due at its first clock reading: each was
retired, or taken out by a callback.  The callbacks may express, cancel, register and let time
pass. -/
theorem checkPitExpire_retires_due {codec : Codec} {s s' : Node} {o : Outcome}
    (hs : Reachable codec s) (hlen : s.pendingInterestTable.length < 2 ^ 31)
    (h : CheckPitExpire (Runs codec) s s' o) :
    o = .undefined ∨ o = .ok ∧ ∀ e ∈ s.pendingInterestTable,
      e.isTimedOut s.clock = true → e ∉ s'.pendingInterestTable := by
  rw [checkPitExpire_of_lt hlen] at h
  refine (Sweep.retires_due h (Inv.reachable hs).pit_le (Nat.le_refl _) (Int.le_refl _)
    (Int.le_refl _) _ [] (List.append_nil _).symm (Nat.le_refl _) (by simp)).imp_right ?_
  refine fun ⟨ho, hout⟩ => ⟨ho, fun e he hto he' => ?_⟩
  have := hout e he' he
  simp only [PendingInterest.isTimedOut, decide_eq_true_eq] at hto
  omega

/-- An Interest with lifetime 0, expressed at 0: the tick at 100 retires it. -/
theorem checkPitExpire_retires_due_after_express :
    let s := ((Node.init 0 0 0).call emptyCodec okLink
      (.expressInterest anyInterest none none)).1.elapse 100
    let e := (Node.init 0 0 0).newPendingInterest anyInterest (.app none) (.app none)
    let s' := (s.expire 0 e 100).elapse 0
    Reachable emptyCodec s ∧ s.pendingInterestTable.length < 2 ^ 31 ∧
      CheckPitExpire (Runs emptyCodec) s s' .ok ∧
      ∀ e ∈ s.pendingInterestTable, e.isTimedOut s.clock = true → e ∉ s'.pendingInterestTable := by
  intro s e s'
  have hs : Reachable emptyCodec s := ((Reachable.init 0 0 0).call okLink _ (by decide)).elapse 100
  have h : CheckPitExpire (Runs emptyCodec) s s' .ok :=
    .of_sweep rfl (.expire 0 100 s _ _ 0 .ok e rfl rfl rfl (.finish _ _))
  have hlen : s.pendingInterestTable.length < 2 ^ 31 := by decide
  exact ⟨hs, hlen, h, ((checkPitExpire_retires_due hs hlen h).resolve_left (by decide)).2⟩

/-! ## The timer keeps running -/

theorem Node.call_timerExpiry (s : Node) (codec : Codec) (link : Link) (c : Call) :
    (s.call codec link c).1.timerExpiry = s.timerExpiry := by
  cases c <;> simp only [Node.call, Node.expressInterest, Node.registerPrefix,
    Node.registerPrefixHelper] <;> (try split_ifs) <;> rfl

theorem Node.onReceiveElement_timerExpiry (s : Node) (codec : Codec) (link : Link) (b : Block) :
    (s.onReceiveElement codec link b).1.timerExpiry = s.timerExpiry := by
  rcases s.onReceiveElement_cases codec link b with
    h | ⟨_, -, -, h⟩ | ⟨_, _, _, -, -, h⟩ <;> rw [h] <;> first | rfl | (rw [Node.callOnData_timerExpiry]; rfl)

theorem Node.callTimeout_timerExpiry (s : Node) (e : PendingInterest) :
    (s.callTimeout e).1.timerExpiry = s.timerExpiry := by
  unfold Node.callTimeout
  split <;> rfl

/-- The timer is due at most 100 ms after the clock: set so at the start and by each re-arming,
and only the clock moves otherwise. -/
theorem timerArmed_preserved (codec : Codec) :
    Preserved codec fun s => s.timerExpiry ≤ s.clock + 100 where
  call s link c h := by
    obtain ⟨-, -, -, -, -, -, hc⟩ := s.call_effect codec link c
    rw [Node.call_timerExpiry, hc]
    exact h
  elapse s d h := show s.timerExpiry ≤ s.clock + d + 100 by omega
  receive s link b h := by
    obtain ⟨-, -, -, -, -, hc, -⟩ := s.onReceiveElement_effect codec link b
    rw [Node.onReceiveElement_timerExpiry, hc]
    exact h
  timeout s n e _ _ h := by
    obtain ⟨-, -, -, -, -, -, hc, -⟩ := (s.expire n e s.clock).callTimeout_effect e
    rw [Node.callTimeout_timerExpiry, hc]
    exact h
  rearm s _ := Int.le_refl _

/-- The callback of a call into the application that returns at once. -/
theorem AfterCall.self (codec : Codec) (x : Node × Bool) : AfterCall (Runs codec) x x.1 := by
  obtain ⟨u, _ | _⟩ := x
  exacts [rfl, .refl]

/-- **Every sweep can run to its end.**  With callbacks that return at once, the loop from any
index within the table visits every index down to `0` without reading past the table: erasing
entry `n` leaves the indices below `n` in range. -/
theorem Sweep.exists_ok (codec : Codec) :
    ∀ (n : Nat) (now : Int) (s : Node), n ≤ s.pendingInterestTable.length →
      ∃ s', Sweep (Runs codec) n now s s' .ok
  | 0, now, s, _ => ⟨s, .finish now s⟩
  | n + 1, now, s, hn => by
    have hlt : n < s.pendingInterestTable.length := hn
    have hi := List.getElem?_eq_getElem hlt
    cases hto : s.pendingInterestTable[n].isTimedOut now
    · obtain ⟨s', h⟩ := Sweep.exists_ok codec n now s (by omega)
      exact ⟨s', .keep n now s s' .ok _ hi hto h⟩
    · let e := s.pendingInterestTable[n]
      let t := ((s.expire n e now).callTimeout e).1
      obtain ⟨-, -, -, -, hpit, -⟩ := (s.expire n e now).callTimeout_effect e
      have hlen : n ≤ (t.elapse 0).pendingInterestTable.length := by
        rw [Node.elapse_pendingInterestTable, hpit, Node.expire_pendingInterestTable,
          List.length_eraseIdx]
        split <;> omega
      obtain ⟨s', h⟩ := Sweep.exists_ok codec n (t.elapse 0).clock (t.elapse 0) hlen
      exact ⟨s', .expire n now s t s' 0 .ok e hi hto (AfterCall.self codec _) h⟩

/-- **The event loop never stalls.**  On a reachable node the timer is due at most 100 ms ahead of
the clock, so once 100 ms have passed a tick is due.  Its sweep can run to the end without
reading past the table, and the tick then end normally, exactly when the bound
`(int)size - 1` of its loop does not overflow: on a table of `2^31` entries (modulo `2^32`) every
tick is undefined.  `checkPitExpire` re-arms the timer each time, and nothing else touches it. -/
theorem tick_ends_normally_iff {codec : Codec} {s : Node} (hs : Reachable codec s)
    (hrun : s.stopped = false) :
    s.timerExpiry ≤ s.clock + 100 ∧
      ((∃ t, CheckPitExpire (Runs codec) (s.elapse 100) t .ok ∧
          Step codec (s.elapse 100) t.rearm .ok) ↔
        loopOverflows s.pendingInterestTable.length = false) := by
  have harmed := (timerArmed_preserved codec).reachable (fun _ _ _ => Int.le_refl _) hs
  refine ⟨harmed, fun ⟨t, ht, _⟩ => ?_, fun hsz => ?_⟩
  · rcases ht.cases with ⟨-, -, h⟩ | ⟨hsz, -⟩
    exacts [Outcome.noConfusion h, hsz]
  · obtain ⟨t, ht⟩ := Sweep.exists_ok codec _ (s.elapse 100).clock (s.elapse 100)
      (loopCount_le (s.elapse 100).pendingInterestTable.length)
    have hc : CheckPitExpire (Runs codec) (s.elapse 100) t .ok := .of_sweep hsz ht
    exact ⟨t, hc, .tick _ t .ok hrun (show s.timerExpiry ≤ s.clock + (100 : Nat) by omega) hc⟩

/-- A node with one pending Interest: 100 ms on, its tick is due and can run to its end. -/
theorem tick_ends_normally_after_express :
    let s := ((Node.init 0 0 0).call emptyCodec okLink
      (.expressInterest anyInterest (some 0) none)).1
    Reachable emptyCodec s ∧ s.stopped = false ∧ s.timerExpiry ≤ s.clock + 100 ∧
      ∃ t, CheckPitExpire (Runs emptyCodec) (s.elapse 100) t .ok ∧
        Step emptyCodec (s.elapse 100) t.rearm .ok := by
  intro s
  have hs : Reachable emptyCodec s := (Reachable.init 0 0 0).call okLink _ (by decide)
  have h := tick_ends_normally_iff hs rfl
  exact ⟨hs, rfl, h.1, h.2.2 rfl⟩

end Ndn
