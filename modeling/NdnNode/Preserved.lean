import NdnNode.Run

/-!
# Properties kept along runs

`Inv` (`NdnNode.Invariant`) is carried along a run one operation at a time, into every callback
and every turn of the sweep.  The run-level properties of `NdnNode.Timeouts` and
`NdnNode.Handles` are carried the same way, and `Preserved` makes that walk once: a property that
each call, each stretch of time, the node's own part of a reception and of a timeout, and each
re-arming of the timer keep holds of every reachable node (`Preserved.reachable`).  The
application code the node calls in between is made of calls and time passing, so it needs
nothing more.

Two more pieces of the same kind:

* `Edits` is what application code can do to the PIT: keep some of its entries, in order, and
  append entries whose ids are above the counter it found (`Runs.edits`).  Unlike `Appends`, it
  allows the removals the code lets a callback make.
* `Later` is the states a run reaches from a given one.  From the end of the step that calls
  `shutdown`, the event loop never runs again, so no callback is ever called again
  (`shutdown_final`).
-/

set_option autoImplicit false

namespace Ndn

open scoped List

/-! ## Properties every step keeps -/

/-- What a property of the node needs to hold along every run: each thing the node and its
application do keeps it. -/
structure Preserved (codec : Codec) (P : Node → Prop) : Prop where
  /-- A call from application code. -/
  call : ∀ s link c, P s → P (s.call codec link c).1
  /-- Time passing. -/
  elapse : ∀ s d, P s → P (s.elapse d)
  /-- The node's part of a reception, up to the callback it ends with. -/
  receive : ∀ s link b, P s → P (s.onReceiveElement codec link b).1
  /-- The node's part of a timeout, up to the callback: entry `n`, due at the clock, leaves the
  PIT and its `callTimeout` runs. -/
  timeout : ∀ (s : Node) n e, s.pendingInterestTable[n]? = some e →
    e.isTimedOut s.clock = true → P s → P ((s.expire n e s.clock).callTimeout e).1
  /-- The timer re-armed at the end of a sweep. -/
  rearm : ∀ s, P s → P s.rearm

namespace Preserved

variable {codec : Codec} {P : Node → Prop}

theorem runs (hP : Preserved codec P) {s t : Node} (h : Runs codec s t) (hs : P s) : P t := by
  induction h with
  | refl => exact hs
  | tail _ hstep ih =>
    cases hstep with
    | call link c => exact hP.call _ link c ih
    | elapse d => exact hP.elapse _ d ih

theorem afterCall (hP : Preserved codec P) {x : Node × Bool} {t : Node}
    (hcb : AfterCall (Runs codec) x t) (hx : P x.1) : P t := by
  obtain ⟨u, _ | _⟩ := x
  · exact (show t = u from hcb) ▸ hx
  · exact hP.runs hcb hx

/-- Along a sweep the clock reading is the clock: it is read at the start and after each
timeout. -/
theorem sweep (hP : Preserved codec P) {n : Nat} {now : Int} {s s' : Node} {o : Outcome}
    (hsw : Sweep (Runs codec) n now s s' o) (hnow : now = s.clock) (hs : P s) : P s' := by
  induction hsw with
  | finish => exact hs
  | outOfRange => exact hs
  | keep _ _ _ _ _ _ _ _ _ ih => exact ih hnow hs
  | expire n now s t s' d o e hi hto hcb _ ih =>
    subst hnow
    exact ih rfl (hP.elapse _ d (hP.afterCall hcb (hP.timeout s n e hi hto hs)))

theorem step (hP : Preserved codec P) {s t : Node} {o : Outcome} (hst : Step codec s t o)
    (hs : P s) : P t := by
  cases hst with
  | call link c => exact hP.call s link c hs
  | elapse d => exact hP.elapse s d hs
  | receive t link b _ _ hcb => exact hP.afterCall hcb (hP.receive s link b hs)
  | tick t o _ _ hsweep =>
    refine hP.rearm t ?_
    rcases hsweep.cases with ⟨-, rfl, -⟩ | ⟨-, hsw⟩
    exacts [hs, hP.sweep hsw rfl hs]

/-- **A preserved property that holds of a fresh node holds of every reachable one.** -/
theorem reachable (hP : Preserved codec P)
    (hinit : ∀ c₁ c₂ clock, P (Node.init c₁ c₂ clock))
    {s : Node} (hs : Reachable codec s) : P s := by
  induction hs with
  | init c₁ c₂ clock => exact hinit c₁ c₂ clock
  | step _ hst _ ih => exact hP.step hst ih

end Preserved

/-! ## Positions in a growing log -/

/-- An event of a log that grew by `evs` was in the old log, or is one of `evs` with the whole
old log before it. -/
theorem append_eq_append_cons_cases {α : Type} {l evs l₁ l₂ : List α} {x : α}
    (h : l ++ evs = l₁ ++ x :: l₂) :
    (∃ l₂', l = l₁ ++ x :: l₂') ∨ (x ∈ evs ∧ l <+: l₁) := by
  rcases List.append_eq_append_iff.1 h with ⟨a', rfl, hevs⟩ | ⟨_ | ⟨y, c'⟩, rfl, hc⟩
  · exact .inr ⟨hevs ▸ List.mem_append_right _ (List.mem_cons_self _ _),
      List.prefix_append _ _⟩
  · rw [List.nil_append] at hc
    exact .inr ⟨hc ▸ List.mem_cons_self _ _, by simp⟩
  · obtain ⟨rfl, rfl⟩ := List.cons_eq_cons.1 hc
    exact .inl ⟨c', rfl⟩

/-! ## What application code does to the PIT -/

/-- What application code may do to the PIT: keep some of its entries, in order, and append
entries whose ids are above the counter it found.  The counter and the clock do not go back. -/
def Edits (t t' : Node) : Prop :=
  ∃ kept new, t'.pendingInterestTable = kept ++ new ∧ kept <+ t.pendingInterestTable ∧
    (∀ x ∈ new, t.lastPendingInterestId < x.pendingInterestId) ∧
    t.lastPendingInterestId ≤ t'.lastPendingInterestId ∧ t.clock ≤ t'.clock

theorem Edits.refl (t : Node) : Edits t t :=
  ⟨t.pendingInterestTable, [], by simp, .refl _, by simp, Nat.le_refl _, Int.le_refl _⟩

theorem Edits.trans {t₁ t₂ t₃ : Node} (h₁ : Edits t₁ t₂) (h₂ : Edits t₂ t₃) :
    Edits t₁ t₃ := by
  obtain ⟨k₁, n₁, hp₁, hk₁, hn₁, hc₁, hl₁⟩ := h₁
  obtain ⟨k₂, n₂, hp₂, hk₂, hn₂, hc₂, hl₂⟩ := h₂
  rw [hp₁, List.sublist_append_iff] at hk₂
  obtain ⟨a, b, rfl, ha, hb⟩ := hk₂
  refine ⟨a, b ++ n₂, by rw [hp₂, List.append_assoc], ha.trans hk₁, fun x hx => ?_,
    Nat.le_trans hc₁ hc₂, Int.le_trans hl₁ hl₂⟩
  rcases List.mem_append.1 hx with hx | hx
  · exact hn₁ x (hb.subset hx)
  · exact Nat.lt_of_le_of_lt hc₁ (hn₂ x hx)

/-- A step that leaves the PIT, the counter and the clock alone. -/
theorem Edits.of_eq {t t' : Node} (hp : t'.pendingInterestTable = t.pendingInterestTable)
    (hc : t'.lastPendingInterestId = t.lastPendingInterestId) (hl : t.clock ≤ t'.clock) :
    Edits t t' :=
  ⟨t.pendingInterestTable, [], by simp [hp], .refl _, by simp, Nat.le_of_eq hc.symm, hl⟩

/-- A call takes entries out, or appends the one it expresses, with the next id. -/
theorem Node.call_edits (s : Node) (codec : Codec) (link : Link) (c : Call) :
    Edits s (s.call codec link c).1 := by
  obtain ⟨evs, -, hpit, hcount, -, -, hclk⟩ := s.call_effect codec link c
  have hnew : ∀ x ∈ evs.filterMap Event.expressed?,
      s.lastPendingInterestId < x.pendingInterestId := by
    intro x hx
    rcases hcount with ⟨hids, -⟩ | ⟨hnil, -⟩
    · have : x.pendingInterestId ∈ (evs.filterMap Event.expressed?).map (·.pendingInterestId) :=
        List.mem_map_of_mem _ hx
      rw [hids, List.mem_singleton] at this
      omega
    · simp [hnil] at hx
  have hle : s.lastPendingInterestId ≤ (s.call codec link c).1.lastPendingInterestId := by
    rcases hcount with ⟨-, h⟩ | ⟨-, h⟩ <;> omega
  rcases hpit with hp | ⟨k, -, hp⟩
  · exact ⟨_, _, hp, .refl _, hnew, hle, hclk ▸ Int.le_refl _⟩
  · exact ⟨_, [], by simp, hp ▸ eraseIds_sublist _ _ _, by simp, hle, hclk ▸ Int.le_refl _⟩

theorem Runs.edits {codec : Codec} {t t' : Node} (h : Runs codec t t') : Edits t t' := by
  induction h with
  | refl => exact Edits.refl _
  | tail _ hstep ih =>
    cases hstep with
    | call link c => exact ih.trans (Node.call_edits _ codec link c)
    | elapse d => exact ih.trans (Edits.of_eq rfl rfl (by simp only [Node.elapse_clock]; omega))

/-- Whatever a timeout does, it only edits the PIT. -/
theorem AfterCall.callTimeout_edits {codec : Codec} {s t : Node} {e : PendingInterest}
    (h : AfterCall (Runs codec) (s.callTimeout e) t) : Edits s t := by
  have hafter : ∀ {u : Node} {b : Bool}, AfterCall (Runs codec) (u, b) t → Edits u t := by
    rintro u (_ | _) h
    exacts [h ▸ Edits.refl u, Runs.edits h]
  unfold Node.callTimeout at h
  split at h
  · exact hafter h
  · rename_i f _
    have hf : Edits s (f.onTimeout s).1 := Edits.of_eq rfl rfl (Int.le_refl _)
    exact hf.trans (hafter h)

/-! ## After shutdown -/

/-- The states a run reaches from `s`, along steps none of which is undefined. -/
def Later (codec : Codec) : Node → Node → Prop :=
  Relation.ReflTransGen fun s t => ∃ o, Step codec s t o ∧ o ≠ .undefined

/-- A preserved property that holds of a node holds of every state a run reaches from it. -/
theorem Preserved.later {codec : Codec} {P : Node → Prop} (hP : Preserved codec P) {s t : Node}
    (h : Later codec s t) (hs : P s) : P t := by
  induction h with
  | refl => exact hs
  | tail _ hst ih =>
    obtain ⟨o, hst, -⟩ := hst
    exact hP.step hst ih

theorem Node.call_stopped (s : Node) (codec : Codec) (link : Link) (c : Call)
    (h : s.stopped = true) : (s.call codec link c).1.stopped = true := by
  cases c <;>
    simp only [Node.call, Node.expressInterest, Node.registerPrefix, Node.registerPrefixHelper,
      Node.removePendingInterest, Node.removeRegisteredPrefix, Node.shutdown_stopped] <;>
    (try split_ifs) <;> exact h

/-- **Shutdown is final, from the end of the step that called it.**  Once a step ends with the
event loop stopped, nothing starts it again: whatever the application goes on doing, no element is
dispatched and no timer fires, so the node never again calls an `onData`, `onTimeout`,
`onInterest` or `onRegisterFailed`.  The pending Interests are abandoned.  Inside the step that
calls `shutdown` this does not hold: a sweep whose timeout calls it goes on with its loop
(`node.cpp` 152-162) and calls the timeouts of the entries still due. -/
theorem shutdown_final {codec : Codec} {s t : Node} (hstop : s.stopped = true)
    (h : Later codec s t) :
    t.stopped = true ∧ ∃ evs, t.log = s.log ++ evs ∧ ∀ ev ∈ evs, ev.callsBack = false := by
  induction h with
  | refl => exact ⟨hstop, [], by simp, by simp⟩
  | tail _ hst ih =>
    obtain ⟨hs, evs, hl, hq⟩ := ih
    obtain ⟨o, hst, -⟩ := hst
    cases hst with
    | call link c =>
      obtain ⟨evs', hl', -, -, hq', -⟩ := Node.call_effect _ codec link c
      refine ⟨Node.call_stopped _ codec link c hs, evs ++ evs', by
        rw [hl', hl, List.append_assoc], fun ev hev => ?_⟩
      rcases List.mem_append.1 hev with hev | hev
      exacts [hq ev hev, hq' ev hev]
    | elapse d => exact ⟨hs, evs, hl, hq⟩
    | receive _ _ _ hrun => exact absurd hs (by simp [hrun])
    | tick _ _ hrun => exact absurd hs (by simp [hrun])

/-- An Interest expressed, then `shutdown`: five seconds later nothing has been called back. -/
theorem shutdown_final_after_express :
    let s := (((Node.init 0 0 0).call emptyCodec okLink
      (.expressInterest anyInterest (some 0) none)).1.call emptyCodec okLink .shutdown).1
    s.stopped = true ∧ Later emptyCodec s (s.elapse 5000) ∧ (s.elapse 5000).stopped = true ∧
      ∃ evs, (s.elapse 5000).log = s.log ++ evs ∧ ∀ ev ∈ evs, ev.callsBack = false := by
  intro s
  have h : Later emptyCodec s (s.elapse 5000) :=
    .single ⟨.ok, .elapse s 5000, Outcome.noConfusion⟩
  exact ⟨rfl, h, shutdown_final rfl h⟩

end Ndn
