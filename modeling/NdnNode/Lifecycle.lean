import NdnNode.Preserved
import NdnNode.Guarantees

/-!
# The life of a PIT entry

The spec gives each PIT entry one exit (§3: "removed exactly once, either on Data match, on
timeout, or on explicit cancellation").  This file checks the code against it over every run.

* `callbacks_follow_express`: `onData` and `callTimeout` are called only for an entry expressed
  before the call.
* `pit_exits_accounted`: the converse.  An entry the node expressed is still in the PIT, or it
  left in one of the three ways: its `onData` was called, its `callTimeout` was called, or a
  `removePendingInterest` of its id was made after it was expressed.  The node drops an entry
  nowhere else.  With `fires_at_most_once` and `cancel_before_firing` this is the spec's "exactly
  once", up to the `2^31` bound of the erase loop.
* `data_retires_oldest`: a Data packet calls back at most one entry, and of the entries it
  answers, the one it retires is the oldest.  The code looks for the first match in the PIT's
  order, and in every reachable state that order is the order of the ids, which is the order of
  expression.

The first two rest on what a single operation does to the PIT (`CallbacksFollowExpress.step`,
`ExitsAccounted.step`), checked once per call, reception and timeout and carried along runs by
`Preserved`.  The third rests on the sorted ids of `Inv`.
-/

set_option autoImplicit false

namespace Ndn

open scoped List

/-! ## No callback without its Interest -/

/-- The entry an event takes out of the PIT and calls back, if it does. -/
def Event.fired? : Event → Option PendingInterest
  | .onData e | .onTimeout e _ => some e
  | _ => none

/-- Every entry of the PIT has been expressed, and every callback of an entry that the log records
follows the entry's expression. -/
def CallbacksFollowExpress (s : Node) : Prop :=
  (∀ x ∈ s.pendingInterestTable, Event.express x ∈ s.log) ∧
    ∀ l₁ ev l₂ e, s.log = l₁ ++ ev :: l₂ → ev.fired? = some e →
      Event.express e ∈ l₁

/-- A step that logs `evs`, adds to the PIT only what it logs as expressed, and calls back only
entries of the PIT, keeps every callback after its Interest. -/
theorem CallbacksFollowExpress.step {s t : Node} (h : CallbacksFollowExpress s)
    {evs : List Event} (hl : t.log = s.log ++ evs)
    (hpit : ∀ x ∈ t.pendingInterestTable,
      x ∈ s.pendingInterestTable ∨ Event.express x ∈ evs)
    (hfire : ∀ ev ∈ evs, ∀ e, ev.fired? = some e → e ∈ s.pendingInterestTable) :
    CallbacksFollowExpress t := by
  refine ⟨fun x hx => hl ▸ (hpit x hx).elim (List.mem_append_left _ ∘ h.1 x)
    (List.mem_append_right _), fun l₁ ev l₂ e heq hf => ?_⟩
  rw [hl] at heq
  rcases append_eq_append_cons_cases heq with ⟨l₂', hlog⟩ | ⟨hev, hpre⟩
  · exact h.2 l₁ ev l₂' e hlog hf
  · exact hpre.subset (h.1 e (hfire ev hev e hf))

theorem callbacksFollowExpress_preserved (codec : Codec) :
    Preserved codec CallbacksFollowExpress where
  call s link c h := by
    obtain ⟨evs, hl, hpit, -, hcb, -⟩ := s.call_effect codec link c
    refine h.step hl (fun x hx => ?_) fun ev hev e hf => ?_
    · rcases hpit with hp | ⟨k, -, hp⟩
      · rcases List.mem_append.1 (hp ▸ hx) with hx | hx
        · exact .inl hx
        · obtain ⟨ev, hev, hx⟩ := List.mem_filterMap.1 hx
          cases ev <;> simp only [Event.expressed?, reduceCtorEq, Option.some.injEq] at hx
          exact .inr (hx ▸ hev)
      · exact .inl ((hp ▸ eraseIds_sublist _ _ _ : _ <+ _).subset hx)
    -- a call calls nothing back
    · have := hcb ev hev
      cases ev <;> simp_all [Event.fired?, Event.callsBack]
  elapse s d h := h.step (List.append_nil _).symm (fun x hx => .inl hx) (by simp)
  receive s link b h := by
    rcases s.onReceiveElement_cases codec link b with
      hr | ⟨x, -, -, hr⟩ | ⟨d, i, e, rfl, hfind, hr⟩ <;> rw [hr]
    · exact h
    · exact h.step rfl (fun x hx => .inl hx) (by simp [Event.fired?])
    · obtain ⟨evs, hl, -, hev⟩ := (s.satisfy i e).callOnData_effect e codec link d
      have hl' : ((s.satisfy i e).callOnData e codec link d).1.log = s.log ++ .onData e :: evs := by
        rw [hl]; simp [Node.satisfy]
      refine h.step hl' (fun x hx => .inl ?_) fun ev hev' e' hf => ?_
      · rw [Node.callOnData_pendingInterestTable] at hx
        exact (List.eraseIdx_sublist _ _).subset hx
      -- only the satisfied entry is called back: the fetcher logs a registration and a send
      · rcases List.mem_cons.1 hev' with rfl | hev'
        · cases hf
          exact List.getElem?_mem (getEntryIndexForExpressedInterest_getElem? hfind)
        · rcases hev ev hev' with ⟨_, rfl, -⟩ | ⟨_, rfl⟩ <;> cases hf
  timeout s n e hi _ h := by
    obtain ⟨evs, hl, -, -, hpit, -, -, hev⟩ := (s.expire n e s.clock).callTimeout_effect e
    have hl' : ((s.expire n e s.clock).callTimeout e).1.log =
        s.log ++ .onTimeout e s.clock :: evs := by
      rw [hl, Node.expire_log, List.append_assoc]; rfl
    refine h.step hl' (fun x hx => .inl ?_) fun ev hev' e' hf => ?_
    · rw [hpit] at hx
      exact (List.eraseIdx_sublist _ _).subset hx
    -- the timed-out entry is called back; a failure report is no entry's callback
    · rcases List.mem_cons.1 hev' with rfl | hev'
      · cases hf
        exact List.getElem?_mem hi
      · obtain ⟨r, rfl⟩ := hev ev hev'
        cases hf
  rearm _ h := h

/-- **No callback without its Interest.**  In every run, every entry of the PIT has been
expressed, and `onData` and `callTimeout` are called only for an entry the node expressed before
the call.  With `pit_exits_accounted` and `fires_at_most_once`, an entry's life is its expression,
then at most one exit. -/
theorem callbacks_follow_express {codec : Codec} {s : Node} (hs : Reachable codec s) :
    (∀ x ∈ s.pendingInterestTable, Event.express x ∈ s.log) ∧
      ∀ l₁ ev l₂ e, s.log = l₁ ++ ev :: l₂ → ev.fired? = some e → Event.express e ∈ l₁ :=
  (callbacksFollowExpress_preserved codec).reachable
    (fun _ _ _ => ⟨by simp [Node.init], fun _ _ _ _ h => by simp [Node.init] at h⟩) hs

/-- An Interest expressed and answered: its `onData` call follows its expression. -/
theorem callbacks_follow_express_answered :
    let s₁ := ((Node.init 0 0 0).call emptyCodec okLink
      (.expressInterest anyInterest (some 0) none)).1
    let s := (s₁.onReceiveElement emptyCodec okLink (.data {})).1
    let e := (Node.init 0 0 0).newPendingInterest anyInterest (.app (some 0)) (.app none)
    Reachable emptyCodec s ∧ s.log = s₁.log ++ [.onData e] ∧ Event.express e ∈ s₁.log ∧
      (∀ x ∈ s.pendingInterestTable, Event.express x ∈ s.log) ∧
      ∀ l₁ ev l₂ e, s.log = l₁ ++ ev :: l₂ → ev.fired? = some e → Event.express e ∈ l₁ := by
  intro s₁ s e
  have hs : Reachable emptyCodec s := ((Reachable.init 0 0 0).call okLink _ (by decide)).step
    (.receive s₁ _ okLink (.data {}) rfl rfl .refl) (by decide)
  exact ⟨hs, by decide, by decide, callbacks_follow_express hs⟩

/-! ## PIT entries -/

/-- Every entry the node has expressed is still in the PIT, or left it with its `onData` called,
its `callTimeout` called, or a cancellation of its id made after it was expressed. -/
def ExitsAccounted (s : Node) : Prop :=
  ∀ e, Event.express e ∈ s.log → e ∈ s.pendingInterestTable ∨ Event.onData e ∈ s.log ∨
    (∃ c, Event.onTimeout e c ∈ s.log) ∨
      ∃ l₁ sz l₂, s.log = l₁ ++ .cancel e.getPendingInterestId sz :: l₂ ∧ Event.express e ∈ l₁

/-- An event among those a log grows by comes after everything the log held. -/
theorem exists_append_cons_of_mem {α : Type} {l evs : List α} {x y : α} (hy : y ∈ l)
    (hx : x ∈ evs) : ∃ l₁ l₂, l ++ evs = l₁ ++ x :: l₂ ∧ y ∈ l₁ := by
  obtain ⟨a, b, rfl⟩ := List.append_of_mem hx
  exact ⟨l ++ a, b, by simp, List.mem_append_left _ hy⟩

/-- A step that logs `evs`, puts each entry it expresses into the PIT, and lets an entry leave
only with its exit among `evs`, keeps the exits accounted. -/
theorem ExitsAccounted.step {s t : Node} (h : ExitsAccounted s) {evs : List Event}
    (hl : t.log = s.log ++ evs)
    (hnew : ∀ e, Event.express e ∈ evs → e ∈ t.pendingInterestTable)
    (hold : ∀ x ∈ s.pendingInterestTable, x ∈ t.pendingInterestTable ∨ Event.onData x ∈ evs ∨
      (∃ c, Event.onTimeout x c ∈ evs) ∨
        ∃ sz, Event.cancel x.getPendingInterestId sz ∈ evs) :
    ExitsAccounted t := by
  intro e he
  rw [hl] at he ⊢
  rcases List.mem_append.1 he with he | he
  · rcases h e he with hin | hd | ⟨c, hc⟩ | ⟨l₁, sz, l₂, hlog, hex⟩
    · rcases hold e hin with hin | hd | ⟨c, hc⟩ | ⟨sz, hc⟩
      · exact .inl hin
      · exact .inr (.inl (List.mem_append_right _ hd))
      · exact .inr (.inr (.inl ⟨c, List.mem_append_right _ hc⟩))
      -- a cancellation in this step follows the whole old log, the expression included
      · obtain ⟨l₁, l₂, hlog, hex⟩ := exists_append_cons_of_mem he hc
        exact .inr (.inr (.inr ⟨l₁, sz, l₂, hlog, hex⟩))
    · exact .inr (.inl (List.mem_append_left _ hd))
    · exact .inr (.inr (.inl ⟨c, List.mem_append_left _ hc⟩))
    · exact .inr (.inr (.inr ⟨l₁, sz, l₂ ++ evs, by simp [hlog], hex⟩))
  · exact .inl (hnew e he)

/-- Events that express nothing, over a PIT that keeps its entries, keep the exits accounted. -/
theorem ExitsAccounted.quiet {s t : Node} (h : ExitsAccounted s) {evs : List Event}
    (hl : t.log = s.log ++ evs) (hx : evs.filterMap Event.expressed? = [])
    (hpit : t.pendingInterestTable = s.pendingInterestTable) : ExitsAccounted t :=
  h.step hl (fun e he => absurd (List.filterMap_eq_nil_iff.1 hx _ he) (by simp [Event.expressed?]))
    fun x hx => .inl (hpit ▸ hx)

theorem exitsAccounted_preserved (codec : Codec) : Preserved codec ExitsAccounted where
  call s link c h := by
    obtain ⟨evs, hl, hpit, -⟩ := s.call_effect codec link c
    refine h.step hl (fun e he => ?_) (fun x hx => ?_)
    · rcases hpit with hp | ⟨k, rfl, -⟩
      · exact hp ▸ List.mem_append_right _ (List.mem_filterMap.2 ⟨_, he, rfl⟩)
      · simp at he
    · rcases hpit with hp | ⟨k, rfl, hp⟩
      · exact .inl (hp ▸ List.mem_append_left _ hx)
      · by_cases hk : x.getPendingInterestId = k
        · subst hk
          exact .inr (.inr (.inr ⟨_, List.mem_singleton_self _⟩))
        · exact .inl (hp ▸ mem_eraseIds_of_ne _ _ (loopCount_le _) hx hk)
  elapse s d h := h.quiet (List.append_nil _).symm rfl rfl
  receive s link b h := by
    obtain ⟨evs, hl, hx, -, -, -, hold⟩ := s.onReceiveElement_effect codec link b
    refine h.step hl (fun e he => ?_) fun x hx => (hold x hx).imp_right .inl
    exact absurd (List.filterMap_eq_nil_iff.1 hx _ he) (by simp [Event.expressed?])
  timeout s n e hi _ h := by
    obtain ⟨evs, hl, hx, -, hpit, -⟩ := (s.expire n e s.clock).callTimeout_effect e
    refine (h.step (Node.expire_log s n e s.clock) (by simp) fun x hx => ?_).quiet hl hx hpit
    rcases mem_eraseIdx_or_eq hi hx with hx | rfl
    exacts [.inl hx, .inr (.inr (.inl ⟨_, List.mem_singleton_self _⟩))]
  rearm _ h := h

/-- **No entry leaves the PIT unaccounted.**  In every run, an entry the node has expressed is
still in the PIT, or its `onData` has been called, or its `callTimeout`, or a
`removePendingInterest` of its id has been made after it was expressed: the Data path, the sweep
and the erase loop take out only the entry they report. -/
theorem pit_exits_accounted {codec : Codec} {s : Node} (hs : Reachable codec s)
    {e : PendingInterest} (he : Event.express e ∈ s.log) :
    e ∈ s.pendingInterestTable ∨ Event.onData e ∈ s.log ∨ (∃ c, Event.onTimeout e c ∈ s.log) ∨
      ∃ l₁ sz l₂, s.log = l₁ ++ .cancel e.getPendingInterestId sz :: l₂ ∧ Event.express e ∈ l₁ :=
  (exitsAccounted_preserved codec).reachable (fun _ _ _ e he => by simp [Node.init] at he) hs e he

/-- An Interest expressed and then cancelled: its exit is the cancellation. -/
theorem pit_exits_accounted_after_cancel :
    let e := (Node.init 0 0 0).newPendingInterest anyInterest (.app none) (.app none)
    let s := (((Node.init 0 0 0).call emptyCodec okLink
      (.expressInterest anyInterest none none)).1.call emptyCodec okLink
      (.removePendingInterest 1)).1
    Reachable emptyCodec s ∧ Event.express e ∈ s.log ∧ e ∉ s.pendingInterestTable ∧
      (e ∈ s.pendingInterestTable ∨ Event.onData e ∈ s.log ∨ (∃ c, Event.onTimeout e c ∈ s.log) ∨
        ∃ l₁ sz l₂, s.log = l₁ ++ .cancel e.getPendingInterestId sz :: l₂ ∧
          Event.express e ∈ l₁) := by
  intro e s
  have hs : Reachable emptyCodec s :=
    ((Reachable.init 0 0 0).call okLink _ (by decide)).call okLink _ (by decide)
  have he : Event.express e ∈ s.log := by decide
  exact ⟨hs, he, by decide, pit_exits_accounted hs he⟩

/-! ## Which entry a Data packet retires -/

/-- On a PIT whose ids increase, the first entry a name matches has the least id of those it
matches. -/
theorem getEntryIndexForExpressedInterest_least {name : Name} :
    ∀ {t : List PendingInterest} {i : Nat} {e : PendingInterest},
      (t.map (·.pendingInterestId)).Pairwise (· < ·) →
      getEntryIndexForExpressedInterest name t = some (i, e) →
      e.interest.matchesName name = true ∧ ∀ x ∈ t, x.interest.matchesName name = true →
        e.pendingInterestId ≤ x.pendingInterestId
  | [], _, _, _, h => by cases h
  | a :: t, i, e, hs, h => by
    rw [List.map_cons, List.pairwise_cons] at hs
    rw [getEntryIndexForExpressedInterest] at h
    split at h
    · rename_i ha
      cases h
      refine ⟨ha, fun x hx _ => ?_⟩
      rcases List.mem_cons.1 hx with rfl | hx
      exacts [Nat.le_refl _, Nat.le_of_lt (hs.1 _ (List.mem_map_of_mem _ hx))]
    · rename_i ha
      obtain ⟨⟨j, e'⟩, hj, he⟩ := Option.map_eq_some'.1 h
      cases he
      obtain ⟨hm, hle⟩ := getEntryIndexForExpressedInterest_least hs.2 hj
      refine ⟨hm, fun x hx hx' => ?_⟩
      rcases List.mem_cons.1 hx with rfl | hx
      exacts [absurd hx' ha, hle x hx hx']

/-- **A Data packet retires the oldest Interest it answers.**  On a reachable node, a reception
of Data calls back at most one PIT entry, and calls no timeout: the `onData` of an entry of the
PIT which matches the Data's name and has the least id, that is, was expressed first, of the
entries that do. -/
theorem data_retires_oldest {codec : Codec} {s : Node} (hs : Reachable codec s) (link : Link)
    (d : Data) :
    ∃ evs, (s.onReceiveElement codec link (.data d)).1.log = s.log ++ evs ∧
      (evs.filterMap Event.fired?).length ≤ 1 ∧
      ∀ e, Event.onData e ∈ evs → e ∈ s.pendingInterestTable ∧
        e.interest.matchesName d.name = true ∧ ∀ x ∈ s.pendingInterestTable,
          x.interest.matchesName d.name = true → e.pendingInterestId ≤ x.pendingInterestId := by
  rcases s.onReceiveElement_cases codec link (.data d) with
    hr | ⟨x, -, hne, -⟩ | ⟨d', i, e, hd, hfind, hr⟩
  · exact ⟨[], by rw [hr]; simp, by simp, by simp⟩
  · exact absurd rfl (hne d)
  cases hd
  have he := List.getElem?_mem (getEntryIndexForExpressedInterest_getElem? hfind)
  have hleast := getEntryIndexForExpressedInterest_least (Inv.reachable hs).pit_sorted hfind
  obtain ⟨evs, hl, -, hev⟩ := (s.satisfy i e).callOnData_effect e codec link d
  -- the fetcher's registration logs a registration and a send, which call no entry back
  have hquiet : evs.filterMap Event.fired? = [] := List.filterMap_eq_nil_iff.2 fun ev h => by
    rcases hev ev h with ⟨_, rfl, -⟩ | ⟨_, rfl⟩ <;> rfl
  refine ⟨.onData e :: evs, by rw [hr, hl]; simp [Node.satisfy], by simp [Event.fired?, hquiet],
    fun e' he' => ?_⟩
  rcases List.mem_cons.1 he' with h | h
  · cases h
    exact ⟨he, hleast⟩
  · rcases hev _ h with ⟨_, h, -⟩ | ⟨_, h⟩ <;> cases h

/-- Two pending Interests for the same name, the older one behind the newer one's id: a Data
packet for it retires the first expressed. -/
theorem data_retires_oldest_two_expresses :
    let s₁ := ((Node.init 0 0 0).call emptyCodec okLink
      (.expressInterest anyInterest (some 0) none)).1
    let s := (s₁.call emptyCodec okLink (.expressInterest anyInterest (some 1) none)).1
    let e := (Node.init 0 0 0).newPendingInterest anyInterest (.app (some 0)) (.app none)
    Reachable emptyCodec s ∧
      Event.onData e ∈ (s.onReceiveElement emptyCodec okLink (.data {})).1.log ∧
      ∃ evs, (s.onReceiveElement emptyCodec okLink (.data {})).1.log = s.log ++ evs ∧
        (evs.filterMap Event.fired?).length ≤ 1 ∧
        ∀ e, Event.onData e ∈ evs → e ∈ s.pendingInterestTable ∧
          e.interest.matchesName ({} : Data).name = true ∧ ∀ x ∈ s.pendingInterestTable,
            x.interest.matchesName ({} : Data).name = true →
              e.pendingInterestId ≤ x.pendingInterestId := by
  intro s₁ s e
  have hs : Reachable emptyCodec s :=
    ((Reachable.init 0 0 0).call okLink _ (by decide)).call okLink _ (by decide)
  exact ⟨hs, by decide, data_retires_oldest hs okLink {}⟩

end Ndn
