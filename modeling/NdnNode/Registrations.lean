import NdnNode.Preserved
import NdnNode.Guarantees

/-!
# Registrations over whole runs

Spec §4.7 gives each registration a state machine: its id is taken, it waits for the ndnd-ID if
need be (`Probing`), and it ends `Registered` or `Failed`, the latter only by the probe timing
out.  `RegState.of` reads a registration's state off the node: the counter says whether its id is
taken, the log whether it was registered or reported failed, the PIT whether its probe is
pending.  The code has one more end the spec's machine lacks, `dropped`: an id whose probe never
entered the PIT (the probe's `connect` raised) or was taken out by a `removePendingInterest`.

* `registration_states_forward`: along every run, each registration moves forward through these
  states and never leaves an end.
* `removeRegisteredPrefix_silences`: once a registration whose probe is not pending is removed,
  on an RPT below `2^31` entries, no later RPT holds its id and its `onInterest` is never called
  again.  With a probe pending it is not so: the reply registers the prefix after its removal
  (`registerPrefix_probe_after_removal`).
* `onInterest_after_register`: an Interest reaches a handler only after its prefix entered the
  RPT, so never while the registration waits for the ndnd-ID.

All three are read off `RegFrame`, what a single operation may do to registrations, checked once
per call, reception and timeout, and carried along runs by `Preserved`.
-/

set_option autoImplicit false

namespace Ndn

open scoped List

/-! ## Registration states -/

/-- Where a registration stands: the states of spec §4.7, and one the code adds. -/
inductive RegState
  /-- Its id has not been handed out. -/
  | unused
  /-- Its ndnd-ID probe is in the PIT. -/
  | probing
  /-- Its prefix has entered the RPT (it may have been removed since). -/
  | registered
  /-- Its `onRegisterFailed` has been called. -/
  | failed
  /-- Its id was handed out, yet no probe for it is pending and it never settled: the probe's
  `connect` raised, or the application took the probe out of the PIT by its id. -/
  | dropped
  deriving DecidableEq, Repr

/-- The event puts registration `r`'s prefix into the RPT. -/
def Event.registers (r : Nat) : Event → Bool
  | .register e => e.registeredPrefixId == r
  | _ => false

/-- Where registration `r` stands in node `s`. -/
def RegState.of (s : Node) (r : Nat) : RegState :=
  if s.lastRegisteredPrefixId < r then .unused
  else if s.log.any (Event.registers r) then .registered
  else if Event.onRegisterFailed r ∈ s.log then .failed
  else if s.pendingInterestTable.any (·.onTimeout.fetcherId? == some r) then .probing
  else .dropped

/-- The moves of spec §4.7's state machine: an unused id may go anywhere, a probing one to an
end; `registered`, `failed` and `dropped` are ends. -/
def RegState.canBecome : RegState → RegState → Bool
  | .unused, _ => true
  | .probing, s => s != .unused
  | s, s' => s == s'

theorem RegState.canBecome_refl (a : RegState) : a.canBecome a = true := by
  cases a <;> rfl

theorem RegState.canBecome_trans {a b c : RegState} (h₁ : a.canBecome b = true)
    (h₂ : b.canBecome c = true) : a.canBecome c = true := by
  revert h₁ h₂
  cases a <;> cases b <;> cases c <;> decide

theorem Event.registers_of_settles {ev : Event} {r : Nat}
    (h : ev.settlesRegistration r = false) :
    ev.registers r = false ∧ ev ≠ .onRegisterFailed r := by
  cases ev <;> simp_all [Event.settlesRegistration, Event.registers]

/-! ## What one operation does to registrations -/

/-- What one operation may do to registrations.  It puts into the PIT only probes for ids it
takes, takes ids but never gives one back, settles only ids it takes or ids probing before, adds
to the RPT only what it logs as registered, and calls only the `onInterest` of an entry of the
RPT. -/
def RegFrame (u v : Node) : Prop :=
  (∀ e ∈ v.pendingInterestTable, e ∈ u.pendingInterestTable ∨
    ∀ r, e.onTimeout.fetcherId? = some r → u.lastRegisteredPrefixId < r) ∧
  u.lastRegisteredPrefixId ≤ v.lastRegisteredPrefixId ∧ ∃ evs, v.log = u.log ++ evs ∧
    (∀ r, ∀ ev ∈ evs, ev.settlesRegistration r = true → u.lastRegisteredPrefixId < r ∨
      ∃ e ∈ u.pendingInterestTable, e.onTimeout.fetcherId? = some r) ∧
    (∀ x ∈ v.registeredPrefixTable,
      x ∈ u.registeredPrefixTable ∨ Event.register x ∈ evs) ∧
    ∀ x, Event.onInterest x ∈ evs → x ∈ u.registeredPrefixTable

/-- An operation that changes no registration: it leaves the PIT's probes, the counter and the RPT
as they were, and logs no settlement and no `onInterest` call. -/
theorem RegFrame.of_quiet {u v : Node} {evs : List Event} (hl : v.log = u.log ++ evs)
    (hpit : ∀ e ∈ v.pendingInterestTable, e ∈ u.pendingInterestTable)
    (hc : u.lastRegisteredPrefixId = v.lastRegisteredPrefixId)
    (hrpt : ∀ x ∈ v.registeredPrefixTable, x ∈ u.registeredPrefixTable)
    (hq : ∀ ev ∈ evs,
      (∀ r, ev.settlesRegistration r = false) ∧ ∀ x, ev ≠ .onInterest x) :
    RegFrame u v :=
  ⟨fun e he => .inl (hpit e he), hc ▸ Nat.le_refl _, evs, hl,
    fun r ev hev hs => absurd hs (by simp [(hq ev hev).1 r]),
    fun x hx => .inl (hrpt x hx), fun x hx => absurd rfl ((hq _ hx).2 x)⟩

/-- An id handed out with no probe pending gets, from one operation, neither a settlement nor a
probe. -/
theorem RegFrame.unprobed {u v : Node} (hf : RegFrame u v) {r : Nat}
    (hr : r ≤ u.lastRegisteredPrefixId)
    (hnp : ∀ e ∈ u.pendingInterestTable, e.onTimeout.fetcherId? ≠ some r) :
    (∀ evs, v.log = u.log ++ evs → ∀ ev ∈ evs, ev.settlesRegistration r = false) ∧
      ∀ e ∈ v.pendingInterestTable, e.onTimeout.fetcherId? ≠ some r := by
  obtain ⟨hpit, -, evs, hl, hset, -, -⟩ := hf
  refine ⟨fun evs' hl' ev hev => ?_, fun e he hre => ?_⟩
  · obtain rfl : evs = evs' := List.append_cancel_left (hl.symm.trans hl')
    exact Bool.eq_false_iff.2 fun hs => (hset r ev hev hs).elim (by omega)
      fun ⟨e, he, hre⟩ => hnp e he hre
  · rcases hpit e he with he | hnew
    · exact hnp e he hre
    · have := hnew r hre
      omega

/-- **One operation moves each registration forward**, when it keeps the invariant: what was
registered or failed stays so (never both, by `Inv`), and what was dropped stays dropped. -/
theorem RegFrame.canBecome {u v : Node} (hf : RegFrame u v) (hv : Inv v) (r : Nat) :
    (RegState.of u r).canBecome (RegState.of v r) = true := by
  have ⟨_, hc, evs, hl, _⟩ := hf
  have hnb : v.log.any (Event.registers r) = true → Event.onRegisterFailed r ∉ v.log :=
    fun hr hf => by
      obtain ⟨ev, hev, hr⟩ := List.any_eq_true.1 hr
      cases ev <;> simp only [Event.registers, Bool.false_eq_true, beq_iff_eq] at hr
      exact hv.register_not_failed hev (hr ▸ hf)
  -- an id handed out with no probe pending gets neither a settlement nor a probe
  have hdrop (hr : r ≤ u.lastRegisteredPrefixId)
      (hnp : ∀ e ∈ u.pendingInterestTable, e.onTimeout.fetcherId? ≠ some r) :
      evs.any (Event.registers r) = false ∧ Event.onRegisterFailed r ∉ evs ∧
        v.pendingInterestTable.any (·.onTimeout.fetcherId? == some r) = false := by
    obtain ⟨hquiet, hprobe⟩ := hf.unprobed hr hnp
    refine ⟨List.any_eq_false.2 fun ev hev => by
        simpa using (Event.registers_of_settles (hquiet evs hl ev hev)).1,
      fun h => (Event.registers_of_settles (hquiet evs hl _ h)).2 rfl,
      List.any_eq_false.2 fun e he hre => hprobe e he (by simpa using hre)⟩
  unfold RegState.of
  by_cases hunused : u.lastRegisteredPrefixId < r
  · rw [if_pos hunused]; rfl
  rw [if_neg hunused, if_neg (by omega : ¬v.lastRegisteredPrefixId < r)]
  by_cases hreg : u.log.any (Event.registers r) = true
  · have : v.log.any (Event.registers r) = true := by simp [hl, hreg]
    rw [if_pos hreg, if_pos this]; rfl
  by_cases hfail : Event.onRegisterFailed r ∈ u.log
  · have hf : Event.onRegisterFailed r ∈ v.log := hl ▸ List.mem_append_left _ hfail
    rw [if_neg hreg, if_pos hfail, if_neg (mt hnb (not_not.2 hf)), if_pos hf]; rfl
  rw [if_neg hreg, if_neg hfail]
  by_cases hprobe : u.pendingInterestTable.any (·.onTimeout.fetcherId? == some r) = true
  · rw [if_pos hprobe]
    split_ifs <;> rfl
  obtain ⟨hreg', hfail', hprobe'⟩ := hdrop (by omega) (by simpa using hprobe)
  rw [if_neg hprobe, hl, List.any_append, Bool.eq_false_iff.2 hreg, hreg', hprobe']
  simp [hfail, hfail', RegState.canBecome]

/-- A PIT grown by one entry that is no probe, or a probe for an id above `c`. -/
theorem mem_append_fresh_probe {l : List PendingInterest} {x : PendingInterest} {c : Nat}
    (hx : ∀ r, x.onTimeout.fetcherId? = some r → c < r) :
    ∀ e ∈ l ++ [x], e ∈ l ∨ ∀ r, e.onTimeout.fetcherId? = some r → c < r := by
  intro e he
  rcases List.mem_append.1 he with he | he
  exacts [.inl he, .inr (List.mem_singleton.1 he ▸ hx)]

/-- A call probes for, and settles, only the id it takes, and calls no handler. -/
theorem Node.call_regFrame (s : Node) (codec : Codec) (link : Link) (c : Call) :
    RegFrame s (s.call codec link c).1 := by
  cases c with
  | removePendingInterest k =>
    exact .of_quiet rfl (fun e he => (eraseIds_sublist _ _ _).subset he) rfl (fun x hx => hx)
      (by simp [Event.settlesRegistration])
  | removeRegisteredPrefix k =>
    exact .of_quiet rfl (fun e he => he) rfl (fun x hx => (eraseIds_sublist _ _ _).subset hx)
      (by simp [Event.settlesRegistration])
  | shutdown =>
    exact .of_quiet (List.append_nil _).symm (fun e he => he) rfl (fun x hx => hx) (by simp)
  | expressInterest i d t =>
    simp only [Node.call, Node.expressInterest]
    have happ := mem_append_fresh_probe (l := s.pendingInterestTable)
      (x := s.newPendingInterest i (.app d) (.app t)) (c := s.lastRegisteredPrefixId) (by simp)
    split_ifs
    · exact ⟨happ, Nat.le_refl _, [.express (s.newPendingInterest i (.app d) (.app t)), .send i],
        by simp, by simp [Event.settlesRegistration], fun x hx => .inl hx, by simp⟩
    · exact ⟨happ, Nat.le_refl _, [.express (s.newPendingInterest i (.app d) (.app t))], by simp,
        by simp [Event.settlesRegistration], fun x hx => .inl hx, by simp⟩
    · exact .of_quiet (List.append_nil _).symm (fun e he => he) rfl (fun x hx => hx) (by simp)
  | registerPrefix p oi orf fl =>
    simp only [Node.call, Node.registerPrefix, Node.expressInterest, Node.registerPrefixHelper]
    let f := s.fetcherFor p oi orf fl
    let i := selfRegInterest codec s.ndndId p fl
    let r : RegisteredPrefix := ⟨s.lastRegisteredPrefixId + 1, p, oi⟩
    have hprobe := mem_append_fresh_probe (l := s.pendingInterestTable)
      (x := s.newPendingInterest ndndIdFetcherInterest f f) (c := s.lastRegisteredPrefixId)
      (by simp [f, Node.fetcherFor])
    -- the direct registration settles the id it takes, and adds its entry to the RPT
    have hreg : ∀ r', ∀ ev ∈ [Event.register r, .send i], ev.settlesRegistration r' = true →
        s.lastRegisteredPrefixId < r' := by
      simp +contextual [Event.settlesRegistration, r]
    have hrpt : ∀ x ∈ s.registeredPrefixTable ++ [r],
        x ∈ s.registeredPrefixTable ∨ Event.register x ∈ [Event.register r] := by simp
    split_ifs
    · exact ⟨hprobe, by simp,
        [.express (s.newPendingInterest ndndIdFetcherInterest f f), .send ndndIdFetcherInterest],
        by simp, by simp [Event.settlesRegistration], fun x hx => .inl hx, by simp⟩
    · exact ⟨hprobe, by simp, [.express (s.newPendingInterest ndndIdFetcherInterest f f)],
        by simp, by simp [Event.settlesRegistration], fun x hx => .inl hx, by simp⟩
    · exact ⟨fun e he => .inl he, by simp, [], by simp, by simp, fun x hx => .inl hx, by simp⟩
    · exact ⟨fun e he => .inl he, by simp, [.register r, .send i], by simp [r, i],
        fun r' ev hev hs => .inl (hreg r' ev hev hs),
        fun x hx => (hrpt x hx).imp_right (List.mem_cons.2 ∘ .inl ∘ List.mem_singleton.1),
        by simp⟩
    · exact ⟨fun e he => .inl he, by simp, [.register r], by simp [r],
        fun r' ev hev hs =>
          .inl (hreg r' ev (List.mem_cons.2 (.inl (List.mem_singleton.1 hev))) hs),
        hrpt, by simp⟩

/-- A reception settles only the registration whose probe the Data satisfies, and calls only the
`onInterest` of an entry of the RPT. -/
theorem Node.onReceiveElement_regFrame {s : Node} (h : Inv s) (codec : Codec) (link : Link)
    (b : Block) : RegFrame s (s.onReceiveElement codec link b).1 := by
  rcases s.onReceiveElement_cases codec link b with
    hr | ⟨x, hx, -, hr⟩ | ⟨d, i, e, rfl, hfind, hr⟩ <;> rw [hr]
  · exact .of_quiet (List.append_nil _).symm (fun e he => he) rfl (fun x hx => hx) (by simp)
  · exact ⟨fun e he => .inl he, Nat.le_refl _, [.onInterest x], rfl,
      by simp [Event.settlesRegistration], fun x hx => .inl hx, by simpa using hx⟩
  · have he : e ∈ s.pendingInterestTable :=
      List.getElem?_mem (getEntryIndexForExpressedInterest_getElem? hfind)
    obtain ⟨evs, hl, hrpt, hev⟩ := (s.satisfy i e).callOnData_effect e codec link d
    refine ⟨fun x hx => .inl ?_, by simp [Node.satisfy], .onData e :: evs,
      by rw [hl]; simp [Node.satisfy], fun r ev hev' hs => ?_,
      fun x hx => (hrpt x hx).imp_right (List.mem_cons_of_mem _), fun x hx => ?_⟩
    · rw [Node.callOnData_pendingInterestTable] at hx
      exact (List.eraseIdx_sublist _ _).subset hx
    -- the fetcher registers the probe's own registration, which was probing
    · rcases List.mem_cons.1 hev' with rfl | hev'
      · simp [Event.settlesRegistration] at hs
      · rcases hev ev hev' with ⟨x, rfl, hx⟩ | ⟨_, rfl⟩
        · rw [Event.settlesRegistration, beq_iff_eq] at hs
          exact .inr ⟨e, he, (h.probe e he).symm.trans (hs ▸ hx)⟩
        · simp [Event.settlesRegistration] at hs
    · rcases List.mem_cons.1 hx with hx | hx
      · cases hx
      · rcases hev _ hx with ⟨_, h, -⟩ | ⟨_, h⟩ <;> cases h

/-- A timeout settles only the registration whose probe timed out. -/
theorem Node.timeout_regFrame {s : Node} {n : Nat} {e : PendingInterest}
    (hi : s.pendingInterestTable[n]? = some e) (now : Int) :
    RegFrame s ((s.expire n e now).callTimeout e).1 := by
  have hsub : ∀ x ∈ (s.expire n e now).pendingInterestTable, x ∈ s.pendingInterestTable :=
    fun x hx => (List.eraseIdx_sublist _ _).subset hx
  unfold Node.callTimeout
  split
  · exact .of_quiet (Node.expire_log s n e now) hsub rfl (fun x hx => hx)
      (by simp [Event.settlesRegistration])
  · rename_i f hf
    refine ⟨fun x hx => .inl (hsub x hx), Nat.le_refl _,
      [.onTimeout e now, .onRegisterFailed f.registeredPrefixId],
      by simp [NdndIdFetcher.onTimeout], ?_, fun x hx => .inl hx, by simp⟩
    simp +contextual [Event.settlesRegistration]
    exact .inr ⟨e, List.getElem?_mem hi, by simp [hf]⟩

/-- **A property every framed operation keeps holds along runs**, with the invariant the
reception's frame needs. -/
theorem RegFrame.preserved (codec : Codec) {Q : Node → Prop}
    (hQ : ∀ u v, Inv u → Q u → Inv v → RegFrame u v → Q v) :
    Preserved codec fun t => Inv t ∧ Q t where
  call s link c h := ⟨h.1.call codec link c,
    hQ _ _ h.1 h.2 (h.1.call codec link c) (s.call_regFrame codec link c)⟩
  elapse s d h := ⟨h.1.elapse d, hQ _ _ h.1 h.2 (h.1.elapse d)
    (.of_quiet (List.append_nil _).symm (fun e he => he) rfl (fun x hx => hx) (by simp))⟩
  receive s link b h := ⟨h.1.onReceiveElement codec link b, hQ _ _ h.1 h.2
    (h.1.onReceiveElement codec link b) (Node.onReceiveElement_regFrame h.1 codec link b)⟩
  timeout s _ _ hi _ h :=
    ⟨h.1.timeout hi _, hQ _ _ h.1 h.2 (h.1.timeout hi _) (Node.timeout_regFrame hi _)⟩
  rearm s h :=
    have hv : Inv s.rearm :=
      h.1.quiet rfl (List.Sublist.refl _) (List.append_nil _).symm (by simp) rfl (Nat.le_refl _)
    ⟨hv, hQ _ _ h.1 h.2 hv
      (.of_quiet (List.append_nil _).symm (fun e he => he) rfl (fun x hx => hx) (by simp))⟩

/-! ## Registrations move forward -/

/-- **Registrations move forward through spec §4.7's states.**  From any reachable node, along any
run, each registration id goes from unused to probing or to an end, from probing to an end, and
never leaves an end: a prefix registered stays registered (the RPT may lose it, the record does
not), a failure stays a failure, and an id whose probe was lost, by a raising `connect` or by a
`removePendingInterest` of the probe's id, is never settled afterwards. -/
theorem registration_states_forward {codec : Codec} {s t : Node} (hs : Reachable codec s)
    (h : Later codec s t) (r : Nat) : (RegState.of s r).canBecome (RegState.of t r) = true :=
  have hP := RegFrame.preserved codec (Q := fun t => ∀ r,
      (RegState.of s r).canBecome (RegState.of t r) = true)
    fun _ _ _ hu hv hf r => RegState.canBecome_trans (hu r) (hf.canBecome hv r)
  (hP.later h ⟨Inv.reachable hs, fun _ => RegState.canBecome_refl _⟩).2 r

/-- A registration made before the ndnd-ID is known: its id goes from unused to probing. -/
theorem registration_states_forward_probe :
    let s := Node.init 0 0 0
    let t := (s.call emptyCodec okLink (.registerPrefix anyInterest.name none none ⟨0⟩)).1
    Reachable emptyCodec s ∧ Later emptyCodec s t ∧ RegState.of s 1 = .unused ∧
      RegState.of t 1 = .probing ∧ (RegState.of s 1).canBecome (RegState.of t 1) = true := by
  intro s t
  have h : Later emptyCodec s t := .single ⟨_, .call s okLink _, by decide⟩
  exact ⟨.init 0 0 0, h, by decide, by decide, registration_states_forward (.init 0 0 0) h 1⟩

/-! ## Removed registrations -/

/-- Registration `r` can no longer be dispatched to: its id is taken, no probe for it is pending,
and the RPT holds no entry with its id. -/
structure Silent (s : Node) (r : Nat) : Prop where
  le : r ≤ s.lastRegisteredPrefixId
  unprobed : ∀ e ∈ s.pendingInterestTable, e.onTimeout.fetcherId? ≠ some r
  unlisted : ∀ x ∈ s.registeredPrefixTable, x.registeredPrefixId ≠ r

/-- **A silent registration stays silent**: an operation neither settles it, nor probes for it,
nor lists it, nor calls its `onInterest`. -/
theorem RegFrame.silent {u v : Node} (hf : RegFrame u v) {r : Nat} (h : Silent u r) :
    Silent v r ∧ ∃ evs, v.log = u.log ++ evs ∧
      ∀ ev ∈ evs, ev.settlesRegistration r = false ∧
        ∀ x, ev = .onInterest x → x.registeredPrefixId ≠ r := by
  obtain ⟨hno, hprobe⟩ := hf.unprobed h.le h.unprobed
  obtain ⟨-, hc, evs, hl, -, hrpt, hint⟩ := hf
  refine ⟨⟨h.le.trans hc, hprobe, fun x hx hxr => ?_⟩, evs, hl,
    fun ev hev => ⟨hno evs hl ev hev, fun x hx => h.unlisted x (hint x (hx ▸ hev))⟩⟩
  rcases hrpt x hx with hx | hx
  · exact h.unlisted x hx hxr
  · simpa [Event.settlesRegistration, hxr] using hno evs hl _ hx

/-- **A removed registration stays removed**, unless its probe is pending.  From a reachable node,
with the RPT below `2^31` entries, once `removeRegisteredPrefix` is called with the id of a
registration whose probe is not pending, along every run no RPT holds that id again, the
registration is never registered or reported failed, and its `onInterest` is never called. -/
theorem removeRegisteredPrefix_silences {codec : Codec} {s t : Node} (hs : Reachable codec s)
    {r : Nat} (hr : r ≤ s.lastRegisteredPrefixId)
    (hnp : ∀ e ∈ s.pendingInterestTable, e.onTimeout.fetcherId? ≠ some r)
    (hlen : s.registeredPrefixTable.length < 2 ^ 31)
    (h : Later codec (s.removeRegisteredPrefix (UInt64.ofNat r)) t) :
    (∀ x ∈ t.registeredPrefixTable, x.registeredPrefixId ≠ r) ∧
      ∃ evs, t.log = (s.removeRegisteredPrefix (UInt64.ofNat r)).log ++ evs ∧
        ∀ ev ∈ evs, ev.settlesRegistration r = false ∧
          ∀ x, ev = .onInterest x → x.registeredPrefixId ≠ r := by
  let u := s.removeRegisteredPrefix (UInt64.ofNat r)
  have hu : Silent u r := by
    refine ⟨hr, hnp, fun x hx hxr => ?_⟩
    rw [Node.removeRegisteredPrefix_registeredPrefixTable, loopCount_of_lt hlen, eraseIds_length,
      List.mem_filter] at hx
    exact of_decide_eq_true hx.2 (by rw [RegisteredPrefix.getRegisteredPrefixId, hxr])
  have hP := RegFrame.preserved codec (Q := fun t => Silent t r ∧
      ∃ evs, t.log = u.log ++ evs ∧ ∀ ev ∈ evs, ev.settlesRegistration r = false ∧
        ∀ x, ev = .onInterest x → x.registeredPrefixId ≠ r)
    fun v w _ ⟨hv, evs, hl, hq⟩ _ hf =>
      have ⟨hw, evs', hl', hq'⟩ := hf.silent hv
      ⟨hw, evs ++ evs', by rw [hl', hl, List.append_assoc],
        fun ev hev => (List.mem_append.1 hev).elim (hq ev) (hq' ev)⟩
  have ht := (hP.later h ⟨(Inv.reachable hs).call codec okLink (.removeRegisteredPrefix _),
    hu, [], (List.append_nil _).symm, by simp⟩).2
  exact ⟨ht.1.unlisted, ht.2⟩

/-- A registration completed by the probe's reply, then removed: an Interest for its prefix
arriving afterwards reaches no handler. -/
theorem removeRegisteredPrefix_silences_after_reply :
    let s₁ := ((Node.init 0 0 0).call emptyCodec okLink
      (.registerPrefix anyInterest.name (some 0) none ⟨0⟩)).1
    let reply : Data := { name := ndndIdFetcherInterest.name, signature := { keyLocator := [1] } }
    let s := (s₁.onReceiveElement emptyCodec okLink (.data reply)).1
    let u := s.removeRegisteredPrefix (UInt64.ofNat 1)
    let t := (u.onReceiveElement emptyCodec okLink (.interest anyInterest)).1
    Reachable emptyCodec s ∧ 1 ≤ s.lastRegisteredPrefixId ∧
      (∀ e ∈ s.pendingInterestTable, e.onTimeout.fetcherId? ≠ some 1) ∧
      s.registeredPrefixTable.length < 2 ^ 31 ∧ Later emptyCodec u t ∧
      (∀ x ∈ t.registeredPrefixTable, x.registeredPrefixId ≠ 1) ∧
      ∃ evs, t.log = u.log ++ evs ∧ ∀ ev ∈ evs, ev.settlesRegistration 1 = false ∧
        ∀ x, ev = .onInterest x → x.registeredPrefixId ≠ 1 := by
  intro s₁ reply s u t
  have hs : Reachable emptyCodec s := ((Reachable.init 0 0 0).call okLink _ (by decide)).step
    (.receive s₁ _ okLink (.data reply) rfl rfl rfl) (by decide)
  have hnp : ∀ e ∈ s.pendingInterestTable, e.onTimeout.fetcherId? ≠ some 1 := by decide
  have h : Later emptyCodec u t :=
    .single ⟨_, .receive u t okLink (.interest anyInterest) rfl rfl rfl, by decide⟩
  exact ⟨hs, by decide, hnp, by decide, h, removeRegisteredPrefix_silences hs (by decide) hnp
    (by decide) h⟩

/-! ## No handler before its registration -/

/-- Every `onInterest` call in the log is for an entry whose prefix entered the RPT earlier. -/
def InterestsFollowRegisters (log : List Event) : Prop :=
  ∀ l₁ e l₂, log = l₁ ++ .onInterest e :: l₂ → Event.register e ∈ l₁

/-- An operation calls only the `onInterest` of an entry of the RPT, and the RPT holds only what
has been registered, so each call it logs follows its entry's registration. -/
theorem InterestsFollowRegisters.frame {u v : Node} (h : InterestsFollowRegisters u.log)
    (hu : Inv u) (hf : RegFrame u v) : InterestsFollowRegisters v.log := by
  obtain ⟨-, -, evs, hl, -, -, hint⟩ := hf
  intro l₁ e l₂ heq
  rw [hl] at heq
  rcases append_eq_append_cons_cases heq with ⟨l₂', hlog⟩ | ⟨he, hpre⟩
  · exact h l₁ e l₂' hlog
  · exact hpre.subset (hu.rpt_logged e (hint e he))

/-- **No handler before its registration.**  In every run, `onInterest` is called only for an
entry whose prefix entered the RPT before the call: while a registration waits for the ndnd-ID,
no Interest reaches its handler. -/
theorem onInterest_after_register {codec : Codec} {s : Node} (hs : Reachable codec s)
    {l₁ l₂ : List Event} {e : RegisteredPrefix} (h : s.log = l₁ ++ .onInterest e :: l₂) :
    Event.register e ∈ l₁ :=
  have hP := RegFrame.preserved codec (Q := fun t => InterestsFollowRegisters t.log)
    fun _ _ hu hq _ hf => hq.frame hu hf
  (hP.reachable (fun c₁ c₂ clock =>
    ⟨Inv.init c₁ c₂ clock, fun _ _ _ h => by simp [Node.init] at h⟩) hs).2 l₁ e l₂ h

/-- The prefix registered by the probe's reply, then an Interest for it: the handler's call
follows the registration. -/
theorem onInterest_after_register_reply :
    let s₁ := ((Node.init 0 0 0).call emptyCodec okLink
      (.registerPrefix anyInterest.name (some 0) none ⟨0⟩)).1
    let reply : Data := { name := ndndIdFetcherInterest.name, signature := { keyLocator := [1] } }
    let s := (s₁.onReceiveElement emptyCodec okLink (.data reply)).1
    let e : RegisteredPrefix := ⟨1, anyInterest.name, some 0⟩
    let t := (s.onReceiveElement emptyCodec okLink (.interest anyInterest)).1
    Reachable emptyCodec t ∧ t.log = s.log ++ [.onInterest e] ∧ Event.register e ∈ s.log := by
  intro s₁ reply s e t
  have hs : Reachable emptyCodec s := ((Reachable.init 0 0 0).call okLink _ (by decide)).step
    (.receive s₁ _ okLink (.data reply) rfl rfl rfl) (by decide)
  have ht : Reachable emptyCodec t :=
    hs.step (.receive s t okLink (.interest anyInterest) rfl rfl .refl) (by decide)
  have hl : t.log = s.log ++ [.onInterest e] := by decide
  exact ⟨ht, hl, onInterest_after_register ht hl⟩

end Ndn
