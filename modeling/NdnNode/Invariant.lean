import NdnNode.Run

/-!
# The invariant of a running node

`Inv` is what holds of every reachable node, and of every state the node is in when it calls
application code — in the middle of a sweep, or between taking a PIT entry out and calling its
`onData`.  Its fields say

* PIT ids increase along the table and none is above the counter (`pit_sorted`, `pit_le`);
* each PIT id is spent once: its entry is in the table, or the log shows one callback of it
  called, never both and never twice (`fires_once`), and ids above the counter are unspent;
* a cancellation on a table below `2^31` entries removes its entry for good (`cancelled`);
* an ndnd-ID probe carries the same fetcher as both callbacks (`probe`), and each registration is
  settled once: its probe is in the PIT, or the log shows the prefix registered or the failure
  reported, never both (`settles_once`);
* the RPT holds only registered entries, no id twice (`rpt_logged`, `rpt_nodup`);
* a failure is reported right after the registration's own probe timed out (`failures`).

The node changes its tables in six ways (`Inv.quiet`, `Inv.pushPendingInterest`,
`Inv.removePendingInterest`, `Inv.pushRegisteredPrefix`, `Inv.fire`, `Inv.onRegisterFailed`);
each keeps `Inv`, and every call, sweep and reception is made of them.
-/

set_option autoImplicit false

namespace Ndn

open scoped List

/-! ## Positions in the log -/

/-- A cancellation, on a table below `2^31` entries, of an entry expressed before it: the entry
is out of the PIT, and no callback of it has been called since. -/
def CancelsStick (s : Node) : Prop :=
  ∀ l₁ sz l₂ e, s.log = l₁ ++ .cancel e.getPendingInterestId sz :: l₂ →
    Event.express e ∈ l₁ → sz < 2 ^ 31 →
    (∀ e' ∈ s.pendingInterestTable, e'.pendingInterestId ≠ e.pendingInterestId) ∧
      ∀ ev ∈ l₂, ev.firesPendingInterest e.pendingInterestId = false

/-- Every `onRegisterFailed r` comes right after the timeout of a probe whose fetcher is
registration `r`'s. -/
def FailuresFollowTimeouts (log : List Event) : Prop :=
  ∀ l₁ r l₂, log = l₁ ++ .onRegisterFailed r :: l₂ →
    ∃ l₀ e c, l₁ = l₀ ++ [.onTimeout e c] ∧ e.onTimeout.fetcherId? = some r ∧
      e.interest = ndndIdFetcherInterest

theorem append_eq_append_cons {α : Type} {l evs l₁ l₂ : List α} {x : α}
    (h : l ++ evs = l₁ ++ x :: l₂) (hx : x ∉ evs) :
    ∃ l₂', l = l₁ ++ x :: l₂' ∧ l₂ = l₂' ++ evs := by
  rcases List.append_eq_append_iff.1 h with ⟨a', rfl, hevs⟩ | ⟨_ | ⟨y, c'⟩, rfl, hc⟩
  · exact absurd (hevs ▸ List.mem_append_right _ (List.mem_cons_self _ _)) hx
  · rw [List.nil_append] at hc
    exact absurd (hc ▸ List.mem_cons_self _ _) hx
  · obtain ⟨rfl, rfl⟩ := List.cons_eq_cons.1 hc
    exact ⟨c', by simp, rfl⟩

theorem append_singleton_eq_append_cons {α : Type} {l l₁ l₂ : List α} {x y : α}
    (h : l ++ [y] = l₁ ++ x :: l₂) :
    (l₁ = l ∧ x = y ∧ l₂ = []) ∨ ∃ l₂', l = l₁ ++ x :: l₂' ∧ l₂ = l₂' ++ [y] := by
  rcases List.append_eq_append_iff.1 h with ⟨a', rfl, hevs⟩ | ⟨_ | ⟨z, c'⟩, rfl, hc⟩
  · obtain ⟨rfl, rfl, rfl⟩ : a' = [] ∧ y = x ∧ [] = l₂ := by
      cases a' <;> simp_all
    exact .inl ⟨by simp, rfl, rfl⟩
  · obtain ⟨rfl, rfl⟩ := List.cons_eq_cons.1 hc
    exact .inl ⟨by simp, rfl, rfl⟩
  · obtain ⟨rfl, rfl⟩ := List.cons_eq_cons.1 hc
    exact .inr ⟨c', by simp, rfl⟩

theorem FailuresFollowTimeouts.append {log evs : List Event} (h : FailuresFollowTimeouts log)
    (hevs : ∀ r, Event.onRegisterFailed r ∉ evs) : FailuresFollowTimeouts (log ++ evs) := by
  intro l₁ r l₂ heq
  obtain ⟨l₂', rfl, -⟩ := append_eq_append_cons heq (hevs r)
  exact h l₁ r l₂' rfl

theorem countP_eraseIdx_add {α : Type} (p : α → Bool) {l : List α} {i : Nat} {a : α}
    (h : l[i]? = some a) : (l.eraseIdx i).countP p + (if p a then 1 else 0) = l.countP p := by
  obtain ⟨hi, rfl⟩ := List.getElem?_eq_some_iff.1 h
  conv_rhs => rw [← List.take_append_drop i l, ← List.getElem_cons_drop l i hi]
  rw [List.eraseIdx_eq_take_drop_succ, List.countP_append, List.countP_append, List.countP_cons]
  omega

/-! ## The invariant -/

/-- Registration `r` is open: its id is handed out, and it is neither settled nor probing. -/
structure Open (s : Node) (r : Nat) : Prop where
  le : r ≤ s.lastRegisteredPrefixId
  unsettled : s.log.countP (·.settlesRegistration r) = 0
  unprobed : s.pendingInterestTable.countP (·.onTimeout.fetcherId? == some r) = 0

/-- The invariant of every reachable node. -/
structure Inv (s : Node) : Prop where
  pit_sorted : (s.pendingInterestTable.map (·.pendingInterestId)).Pairwise (· < ·)
  pit_le : ∀ e ∈ s.pendingInterestTable, e.pendingInterestId ≤ s.lastPendingInterestId
  express_le : ∀ e, Event.express e ∈ s.log → e.pendingInterestId ≤ s.lastPendingInterestId
  fires_le : ∀ k, s.lastPendingInterestId < k → s.log.countP (·.firesPendingInterest k) = 0
  /-- An id's entry is in the PIT or one of its callbacks was called; at most one of these, once. -/
  fires_once : ∀ k, s.log.countP (·.firesPendingInterest k) +
    s.pendingInterestTable.countP (·.pendingInterestId == k) ≤ 1
  cancelled : CancelsStick s
  /-- A probe has its fetcher as both callbacks. -/
  probe : ∀ e ∈ s.pendingInterestTable, e.onData.fetcherId? = e.onTimeout.fetcherId?
  probe_interest : ∀ e ∈ s.pendingInterestTable, e.onTimeout.fetcherId? ≠ none →
    e.interest = ndndIdFetcherInterest
  probe_le : ∀ e ∈ s.pendingInterestTable, ∀ r, e.onTimeout.fetcherId? = some r →
    r ≤ s.lastRegisteredPrefixId
  settles_le : ∀ r, s.lastRegisteredPrefixId < r → s.log.countP (·.settlesRegistration r) = 0
  /-- A registration is probing, or was registered, or failed; at most one of these, once. -/
  settles_once : ∀ r, s.log.countP (·.settlesRegistration r) +
    s.pendingInterestTable.countP (·.onTimeout.fetcherId? == some r) ≤ 1
  rpt_logged : ∀ e ∈ s.registeredPrefixTable, Event.register e ∈ s.log
  rpt_nodup : (s.registeredPrefixTable.map (·.registeredPrefixId)).Nodup
  failures : FailuresFollowTimeouts s.log

theorem Inv.init (c₁ c₂ : Nat) (clock : Int) : Inv (Node.init c₁ c₂ clock) where
  pit_sorted := List.Pairwise.nil
  pit_le := by simp [Node.init]
  express_le := by simp [Node.init]
  fires_le := by simp [Node.init]
  fires_once := by simp [Node.init]
  cancelled := by intro l₁ _ _ _ h; simp [Node.init] at h
  probe := by simp [Node.init]
  probe_interest := by simp [Node.init]
  probe_le := by simp [Node.init]
  settles_le := by simp [Node.init]
  settles_once := by simp [Node.init]
  rpt_logged := by simp [Node.init]
  rpt_nodup := List.nodup_nil
  failures := by intro l₁ _ _ h; simp [Node.init] at h

/-! ## What each change of the tables keeps -/

theorem CancelsStick.append {s s' : Node} (h : CancelsStick s)
    (hexp : ∀ e, Event.express e ∈ s.log → e.pendingInterestId ≤ s.lastPendingInterestId)
    {evs : List Event} (hlog : s'.log = s.log ++ evs) (hc : ∀ k sz, Event.cancel k sz ∉ evs)
    (hpit : ∀ e' ∈ s'.pendingInterestTable,
      e' ∈ s.pendingInterestTable ∨ s.lastPendingInterestId < e'.pendingInterestId)
    (hfire : ∀ ev ∈ evs, ∀ k, ev.firesPendingInterest k = true →
      ∃ e ∈ s.pendingInterestTable, e.pendingInterestId = k) :
    CancelsStick s' := by
  intro l₁ sz l₂ e heq hex hsz
  rw [hlog] at heq
  obtain ⟨l₂', hl, rfl⟩ := append_eq_append_cons heq (hc _ sz)
  obtain ⟨hout, hquiet⟩ := h l₁ sz l₂' e hl hex hsz
  have hle := hexp e (hl ▸ List.mem_append_left _ hex)
  refine ⟨fun e' he' => ?_, fun ev hev => ?_⟩
  · rcases hpit e' he' with he' | hlt
    · exact hout e' he'
    · omega
  · rcases List.mem_append.1 hev with hev | hev
    · exact hquiet ev hev
    · cases hf : ev.firesPendingInterest e.pendingInterestId
      · rfl
      · obtain ⟨e'', he'', hid⟩ := hfire ev hev _ hf
        exact absurd hid (hout e'' he'')

/-- Events that change no table and no count the invariant keeps. -/
def Event.quiet : Event → Bool
  | .send _ | .onInterest _ | .unregister _ => true
  | _ => false

theorem Event.quiet_spec {ev : Event} (h : ev.quiet = true) :
    (∀ k, ev.firesPendingInterest k = false) ∧ (∀ r, ev.settlesRegistration r = false) ∧
      (∀ e, ev ≠ .express e) ∧ (∀ k sz, ev ≠ .cancel k sz) ∧ ∀ r, ev ≠ .onRegisterFailed r := by
  cases ev <;> simp_all [Event.quiet, Event.firesPendingInterest, Event.settlesRegistration]

/-- **Quiet changes.**  Sends, `onInterest` calls, RPT removals, a connection, the clock, the
ndnd-ID and the registration counter keep the invariant. -/
theorem Inv.quiet {s s' : Node} (h : Inv s) {evs : List Event}
    (hpit : s'.pendingInterestTable = s.pendingInterestTable)
    (hrpt : s'.registeredPrefixTable <+ s.registeredPrefixTable)
    (hlog : s'.log = s.log ++ evs) (hq : ∀ ev ∈ evs, ev.quiet = true)
    (hp : s'.lastPendingInterestId = s.lastPendingInterestId)
    (hr : s.lastRegisteredPrefixId ≤ s'.lastRegisteredPrefixId) : Inv s' := by
  have hf : ∀ k, evs.countP (·.firesPendingInterest k) = 0 := fun k =>
    List.countP_eq_zero.2 fun ev hev => by simp [(Event.quiet_spec (hq ev hev)).1 k]
  have hs : ∀ r, evs.countP (·.settlesRegistration r) = 0 := fun r =>
    List.countP_eq_zero.2 fun ev hev => by simp [(Event.quiet_spec (hq ev hev)).2.1 r]
  exact {
    pit_sorted := by rw [hpit]; exact h.pit_sorted
    pit_le := by rw [hpit, hp]; exact h.pit_le
    express_le := fun e he => by
      rw [hlog] at he
      rcases List.mem_append.1 he with he | he
      · exact hp ▸ h.express_le e he
      · exact absurd rfl ((Event.quiet_spec (hq _ he)).2.2.1 e)
    fires_le := fun k hk => by rw [hlog, List.countP_append, hf, h.fires_le k (hp ▸ hk)]
    fires_once := fun k => by rw [hlog, hpit, List.countP_append, hf]; exact h.fires_once k
    cancelled := h.cancelled.append h.express_le hlog
      (fun k sz hev => (Event.quiet_spec (hq _ hev)).2.2.2.1 k sz rfl)
      (fun e' he' => .inl (hpit ▸ he'))
      (fun ev hev k hk => by simp [(Event.quiet_spec (hq ev hev)).1 k] at hk)
    probe := by rw [hpit]; exact h.probe
    probe_interest := by rw [hpit]; exact h.probe_interest
    probe_le := by rw [hpit]; exact fun e he r hr' => (h.probe_le e he r hr').trans hr
    settles_le := fun r hr' => by rw [hlog, List.countP_append, hs, h.settles_le r (by omega)]
    settles_once := fun r => by rw [hlog, hpit, List.countP_append, hs]; exact h.settles_once r
    rpt_logged := fun e he => hlog ▸ List.mem_append_left _ (h.rpt_logged e (hrpt.subset he))
    rpt_nodup := (hrpt.map _).nodup h.rpt_nodup
    failures := by
      rw [hlog]
      exact h.failures.append fun r hev => (Event.quiet_spec (hq _ hev)).2.2.2.2 r rfl }

/-- **A new PIT entry.**  Its callbacks are the application's, or the fetcher of an open
registration as both, for the ndnd-ID probe Interest. -/
theorem Inv.pushPendingInterest {s : Node} (h : Inv s) (i : Interest) (d t : PendingCallback)
    (hprobe : d.fetcherId? = t.fetcherId?) (hint : t.fetcherId? ≠ none → i = ndndIdFetcherInterest)
    (hopen : ∀ r, t.fetcherId? = some r → Open s r) : Inv (s.pushPendingInterest i d t) := by
  have hnew := Node.newPendingInterest_pendingInterestId s i d t
  have hlt : ∀ e ∈ s.pendingInterestTable, e.pendingInterestId < s.lastPendingInterestId + 1 :=
    fun e he => Nat.lt_succ_of_le (h.pit_le e he)
  have hfx : ∀ k, (Event.express (s.newPendingInterest i d t)).firesPendingInterest k = false :=
    fun _ => rfl
  exact {
    pit_sorted := by
      simp only [Node.pushPendingInterest_pendingInterestTable, List.map_append, List.map_cons,
        List.map_nil, List.pairwise_append, List.pairwise_singleton, List.mem_singleton, true_and,
        List.mem_map]
      refine ⟨h.pit_sorted, ?_⟩
      rintro _ ⟨e, he, rfl⟩ _ rfl
      exact hlt e he
    pit_le := by
      simp only [Node.pushPendingInterest_pendingInterestTable, List.mem_append,
        List.mem_singleton, Node.pushPendingInterest_lastPendingInterestId]
      rintro e (he | rfl)
      · exact (h.pit_le e he).trans (Nat.le_succ _)
      · exact le_of_eq hnew
    express_le := by
      simp only [Node.pushPendingInterest_log, List.mem_append, List.mem_singleton,
        Node.pushPendingInterest_lastPendingInterestId, Event.express.injEq]
      rintro e (he | rfl)
      · exact (h.express_le e he).trans (Nat.le_succ _)
      · exact le_of_eq hnew
    fires_le := fun k hk => by
      simp only [Node.pushPendingInterest_log, List.countP_append, List.countP_singleton, hfx]
      simp only [Node.pushPendingInterest_lastPendingInterestId] at hk
      rw [h.fires_le k (by omega)]; rfl
    fires_once := fun k => by
      simp only [Node.pushPendingInterest_log, Node.pushPendingInterest_pendingInterestTable,
        List.countP_append, List.countP_singleton, hfx, hnew]
      by_cases hk : s.lastPendingInterestId + 1 = k
      · subst hk
        rw [h.fires_le _ (Nat.lt_succ_self _), List.countP_eq_zero.2 fun e he => by
          simpa using (hlt e he).ne]
        simp
      · have := h.fires_once k
        simp [hk]
        omega
    cancelled := by
      refine h.cancelled.append h.express_le rfl (by simp) (fun e' he' => ?_) (by simp [hfx])
      simp only [Node.pushPendingInterest_pendingInterestTable, List.mem_append,
        List.mem_singleton] at he'
      rcases he' with he' | rfl
      · exact .inl he'
      · exact .inr (by rw [hnew]; exact Nat.lt_succ_self _)
    probe := by
      simp only [Node.pushPendingInterest_pendingInterestTable, List.mem_append,
        List.mem_singleton]
      rintro e (he | rfl)
      exacts [h.probe e he, hprobe]
    probe_interest := by
      simp only [Node.pushPendingInterest_pendingInterestTable, List.mem_append,
        List.mem_singleton]
      rintro e (he | rfl)
      exacts [h.probe_interest e he, hint]
    probe_le := by
      simp only [Node.pushPendingInterest_pendingInterestTable, List.mem_append,
        List.mem_singleton, Node.pushPendingInterest_lastRegisteredPrefixId]
      rintro e (he | rfl) r hr
      exacts [h.probe_le e he r hr, (hopen r hr).le]
    settles_le := fun r hr => by
      simp only [Node.pushPendingInterest_log, List.countP_append, List.countP_singleton]
      rw [h.settles_le r hr]; rfl
    settles_once := fun r => by
      simp only [Node.pushPendingInterest_log, Node.pushPendingInterest_pendingInterestTable,
        List.countP_append, List.countP_singleton]
      have hsx : (Event.express (s.newPendingInterest i d t)).settlesRegistration r = false := rfl
      by_cases hr : t.fetcherId? = some r
      · have ho := hopen r hr
        simp [ho.unsettled, ho.unprobed, hsx, hr]
      · have := h.settles_once r
        simp [hsx, hr]
        omega
    rpt_logged := fun e he => List.mem_append_left _ (h.rpt_logged e he)
    rpt_nodup := h.rpt_nodup
    failures := h.failures.append (by simp) }

/-- **A cancellation.**  It keeps a sublist of the PIT; below `2^31` entries it removes every
entry with the id. -/
theorem Inv.removePendingInterest {s : Node} (h : Inv s) (k : UInt64) :
    Inv (s.removePendingInterest k) := by
  have hsub : (s.removePendingInterest k).pendingInterestTable <+ s.pendingInterestTable :=
    eraseIds_sublist _ _ _
  have hcx : ∀ n, (Event.cancel k s.pendingInterestTable.length).firesPendingInterest n = false :=
    fun _ => rfl
  have hcs : ∀ r, (Event.cancel k s.pendingInterestTable.length).settlesRegistration r = false :=
    fun _ => rfl
  exact {
    pit_sorted := h.pit_sorted.sublist (hsub.map _)
    pit_le := fun e he => h.pit_le e (hsub.subset he)
    express_le := by simpa using h.express_le
    fires_le := fun n hn => by simp [hcx, h.fires_le n hn]
    fires_once := fun n => by
      have := h.fires_once n
      have := hsub.countP_le (·.pendingInterestId == n)
      simp only [Node.removePendingInterest_log, List.countP_append, List.countP_singleton, hcx]
      simp only [Bool.false_eq_true, ite_false, Nat.add_zero]
      omega
    cancelled := by
      intro l₁ sz l₂ e heq hex hsz
      simp only [Node.removePendingInterest_log] at heq
      rcases append_singleton_eq_append_cons heq with ⟨rfl, hc, rfl⟩ | ⟨l₂', hl, rfl⟩
      · obtain ⟨rfl, rfl⟩ := Event.cancel.inj hc
        refine ⟨fun e' he' hid => ?_, by simp⟩
        simp only [Node.removePendingInterest_pendingInterestTable, loopCount_of_lt hsz,
          eraseIds_length, List.mem_filter] at he'
        exact of_decide_eq_true he'.2 (by simp [PendingInterest.getPendingInterestId, hid])
      · obtain ⟨hout, hquiet⟩ := h.cancelled l₁ sz l₂' e hl hex hsz
        refine ⟨fun e' he' => hout e' (hsub.subset he'), fun ev hev => ?_⟩
        rcases List.mem_append.1 hev with hev | hev
        · exact hquiet ev hev
        · rw [List.mem_singleton.1 hev]; rfl
    probe := fun e he => h.probe e (hsub.subset he)
    probe_interest := fun e he => h.probe_interest e (hsub.subset he)
    probe_le := fun e he => h.probe_le e (hsub.subset he)
    settles_le := fun r hr => by simp [hcs, h.settles_le r hr]
    settles_once := fun r => by
      have := h.settles_once r
      have := hsub.countP_le (·.onTimeout.fetcherId? == some r)
      simp only [Node.removePendingInterest_log, List.countP_append, List.countP_singleton, hcs]
      simp only [Bool.false_eq_true, ite_false, Nat.add_zero]
      omega
    rpt_logged := fun e he => List.mem_append_left _ (h.rpt_logged e he)
    rpt_nodup := h.rpt_nodup
    failures := by simpa using h.failures.append (by simp) }

/-- **A registered prefix**, for an open registration. -/
theorem Inv.pushRegisteredPrefix {s : Node} (h : Inv s) (e : RegisteredPrefix)
    (ho : Open s e.registeredPrefixId) : Inv (s.pushRegisteredPrefix e) := by
  have hfx : ∀ k, (Event.register e).firesPendingInterest k = false := fun _ => rfl
  have hsx : ∀ r, (Event.register e).settlesRegistration r = (e.registeredPrefixId == r) :=
    fun _ => rfl
  have hnot : e.registeredPrefixId ∉ s.registeredPrefixTable.map (·.registeredPrefixId) := by
    simp only [List.mem_map, not_exists, not_and]
    intro e' he' hid
    have : 0 < s.log.countP (·.settlesRegistration e.registeredPrefixId) :=
      List.countP_pos_iff.2 ⟨Event.register e', h.rpt_logged e' he',
        show (e'.registeredPrefixId == e.registeredPrefixId) = true by simp [hid]⟩
    have := ho.unsettled
    omega
  exact {
    pit_sorted := h.pit_sorted
    pit_le := h.pit_le
    express_le := fun e' he' => h.express_le e' (by simpa using he')
    fires_le := fun k hk => by simp [hfx, h.fires_le k hk]
    fires_once := fun k => by simpa [hfx] using h.fires_once k
    cancelled :=
      h.cancelled.append h.express_le rfl (by simp) (fun e' he' => .inl he') (by simp [hfx])
    probe := h.probe
    probe_interest := h.probe_interest
    probe_le := h.probe_le
    settles_le := fun r hr => by
      have : e.registeredPrefixId ≠ r := by have := ho.le; simp at hr; omega
      simp [hsx, this, h.settles_le r hr]
    settles_once := fun r => by
      by_cases hr : e.registeredPrefixId = r
      · subst hr
        simp [hsx, ho.unsettled, ho.unprobed]
      · simpa [hsx, hr] using h.settles_once r
    rpt_logged := by
      simp only [Node.pushRegisteredPrefix_registeredPrefixTable, Node.pushRegisteredPrefix_log,
        List.mem_append, List.mem_singleton]
      rintro e' (he' | rfl)
      exacts [.inl (h.rpt_logged e' he'), .inr rfl]
    rpt_nodup := by
      rw [Node.pushRegisteredPrefix_registeredPrefixTable, List.map_append, List.map_singleton]
      refine List.pairwise_append.2 ⟨h.rpt_nodup, List.pairwise_singleton _ _, fun a ha b hb => ?_⟩
      rw [List.mem_singleton.1 hb]
      rintro rfl
      exact hnot ha
    failures := h.failures.append (by simp) }

/-- **An entry taken out of the PIT and one of its callbacks called**, by a Data packet or a
timeout.  If the entry was a probe, its registration is then open. -/
theorem Inv.fire {s : Node} (h : Inv s) {i : Nat} {e : PendingInterest}
    (hi : s.pendingInterestTable[i]? = some e) (ev : Event)
    (hev : ev = .onData e ∨ ∃ c, ev = .onTimeout e c) :
    Inv (({ s with pendingInterestTable := s.pendingInterestTable.eraseIdx i } : Node).record ev) ∧
      ∀ r, e.onTimeout.fetcherId? = some r →
        Open (({ s with pendingInterestTable := s.pendingInterestTable.eraseIdx i } : Node).record ev) r := by
  have he : e ∈ s.pendingInterestTable := List.getElem?_mem hi
  have hsub : s.pendingInterestTable.eraseIdx i <+ s.pendingInterestTable := List.eraseIdx_sublist _ _
  have hfire : ∀ k, ev.firesPendingInterest k = (e.pendingInterestId == k) := by
    rcases hev with rfl | ⟨c, rfl⟩ <;> intro k <;> rfl
  have hquiet : (∀ r, ev.settlesRegistration r = false) ∧ (∀ e', Event.express e' ≠ ev) ∧
      (∀ k sz, Event.cancel k sz ≠ ev) ∧ ∀ r, Event.onRegisterFailed r ≠ ev := by
    rcases hev with rfl | ⟨c, rfl⟩ <;> simp [Event.settlesRegistration]
  have hfires : ∀ k, (s.log ++ [ev]).countP (·.firesPendingInterest k) =
      s.log.countP (·.firesPendingInterest k) + if e.pendingInterestId == k then 1 else 0 := by
    intro k; rw [List.countP_append, List.countP_singleton, hfire]
  have hsettles : ∀ r, (s.log ++ [ev]).countP (·.settlesRegistration r) =
      s.log.countP (·.settlesRegistration r) := by
    intro r; simp [hquiet.1 r]
  have hcount := fun (p : PendingInterest → Bool) => countP_eraseIdx_add p hi
  refine ⟨{
    pit_sorted := h.pit_sorted.sublist (hsub.map _)
    pit_le := fun e' he' => h.pit_le e' (hsub.subset he')
    express_le := fun e' he' => by
      rcases List.mem_append.1 he' with he' | he'
      · exact h.express_le e' he'
      · exact absurd (List.mem_singleton.1 he') (hquiet.2.1 e')
    fires_le := fun k hk => by
      change s.lastPendingInterestId < k at hk
      have : e.pendingInterestId ≠ k := by have := h.pit_le e he; omega
      show (s.log ++ [ev]).countP _ = 0
      simp [hfires, this, h.fires_le k hk]
    fires_once := fun k => by
      have := h.fires_once k
      have hk := hcount (·.pendingInterestId == k)
      show (s.log ++ [ev]).countP _ + (s.pendingInterestTable.eraseIdx i).countP _ ≤ 1
      rw [hfires]
      simp only at hk
      split_ifs at hk ⊢ <;> omega
    cancelled := h.cancelled.append h.express_le rfl
      (fun k sz hm => hquiet.2.2.1 k sz (List.mem_singleton.1 hm))
      (fun e' he' => .inl (hsub.subset he'))
      (fun ev' hev' k hk => by
        rw [List.mem_singleton.1 hev', hfire] at hk
        exact ⟨e, he, by simpa using hk⟩)
    probe := fun e' he' => h.probe e' (hsub.subset he')
    probe_interest := fun e' he' => h.probe_interest e' (hsub.subset he')
    probe_le := fun e' he' => h.probe_le e' (hsub.subset he')
    settles_le := fun r hr => (hsettles r).trans (h.settles_le r hr)
    settles_once := fun r => by
      have := h.settles_once r
      have := hsub.countP_le (·.onTimeout.fetcherId? == some r)
      show (s.log ++ [ev]).countP _ + (s.pendingInterestTable.eraseIdx i).countP _ ≤ 1
      rw [hsettles]
      omega
    rpt_logged := fun e' he' => List.mem_append_left _ (h.rpt_logged e' he')
    rpt_nodup := h.rpt_nodup
    failures := h.failures.append fun r hm => hquiet.2.2.2 r (List.mem_singleton.1 hm) },
    fun r hr => ?_⟩
  have hp := hcount (·.onTimeout.fetcherId? == some r)
  have := h.settles_once r
  simp only [hr, beq_self_eq_true, ite_true] at hp
  exact ⟨h.probe_le e he r hr, by show (s.log ++ [ev]).countP _ = 0; rw [hsettles]; omega, by
    show (s.pendingInterestTable.eraseIdx i).countP _ = 0; omega⟩

/-- **A failure reported**, for an open registration, right after its probe timed out. -/
theorem Inv.onRegisterFailed {s : Node} (h : Inv s) {r : Nat} (ho : Open s r)
    (hlast : ∃ l₀ e c, s.log = l₀ ++ [.onTimeout e c] ∧ e.onTimeout.fetcherId? = some r ∧
      e.interest = ndndIdFetcherInterest) :
    Inv (s.record (.onRegisterFailed r)) := by
  have hfx : ∀ k, (Event.onRegisterFailed r).firesPendingInterest k = false := fun _ => rfl
  have hsx : ∀ r', (Event.onRegisterFailed r).settlesRegistration r' = (r == r') := fun _ => rfl
  exact {
    pit_sorted := h.pit_sorted
    pit_le := h.pit_le
    express_le := fun e' he' => h.express_le e' (by simpa using he')
    fires_le := fun k hk => by simp [hfx, h.fires_le k hk]
    fires_once := fun k => by simpa [hfx] using h.fires_once k
    cancelled :=
      h.cancelled.append h.express_le rfl (by simp) (fun e' he' => .inl he') (by simp [hfx])
    probe := h.probe
    probe_interest := h.probe_interest
    probe_le := h.probe_le
    settles_le := fun r' hr' => by
      have : r ≠ r' := by have := ho.le; simp at hr'; omega
      simp [hsx, this, h.settles_le r' hr']
    settles_once := fun r' => by
      by_cases hr : r = r'
      · subst hr
        simp [hsx, ho.unsettled, ho.unprobed]
      · simpa [hsx, hr] using h.settles_once r'
    rpt_logged := fun e he => List.mem_append_left _ (h.rpt_logged e he)
    rpt_nodup := h.rpt_nodup
    failures := by
      intro l₁ r' l₂ heq
      rcases append_singleton_eq_append_cons heq with ⟨rfl, hx, rfl⟩ | ⟨l₂', hl, rfl⟩
      · obtain rfl := Event.onRegisterFailed.inj hx
        exact hlast
      · exact h.failures l₁ r' l₂' hl }

/-! ## Calls, timeouts, receptions -/

theorem Inv.record_quiet {s : Node} (h : Inv s) {ev : Event} (hq : ev.quiet = true) :
    Inv (s.record ev) :=
  h.quiet rfl (List.Sublist.refl _) rfl (by simpa using hq) rfl (Nat.le_refl _)

theorem Inv.elapse {s : Node} (h : Inv s) (d : Nat) : Inv (s.elapse d) :=
  h.quiet rfl (List.Sublist.refl _) (List.append_nil _).symm (by simp) rfl (Nat.le_refl _)

theorem Inv.expressInterest {s : Node} (h : Inv s) (link : Link) (i : Interest)
    (d t : PendingCallback) (hprobe : d.fetcherId? = t.fetcherId?)
    (hint : t.fetcherId? ≠ none → i = ndndIdFetcherInterest)
    (hopen : ∀ r, t.fetcherId? = some r → Open s r) :
    Inv (s.expressInterest link i d t).1 := by
  have hc : Inv s.connect := h.quiet rfl (List.Sublist.refl _) (List.append_nil _).symm
    (by simp) rfl (Nat.le_refl _)
  have hp := hc.pushPendingInterest i d t hprobe hint fun r hr =>
    let ho := hopen r hr
    ⟨ho.le, ho.unsettled, ho.unprobed⟩
  unfold Node.expressInterest
  split_ifs
  exacts [hp.record_quiet rfl, hp, h]

/-- A registration id just taken is open. -/
theorem Inv.open_takeRegisteredPrefixId {s : Node} (h : Inv s) :
    Open s.takeRegisteredPrefixId (s.lastRegisteredPrefixId + 1) where
  le := Nat.le_refl _
  unsettled := h.settles_le _ (Nat.lt_succ_self _)
  unprobed := List.countP_eq_zero.2 fun e he hr => by
    have := h.probe_le e he _ (by simpa using hr)
    omega

theorem Inv.registerPrefixHelper {s : Node} (h : Inv s) (codec : Codec) (link : Link) {r : Nat}
    (ho : Open s r) (prefixName : Name) (onInterest onRegisterFailed : Callback)
    (flags : ForwardingFlags) :
    Inv (s.registerPrefixHelper codec link r prefixName onInterest onRegisterFailed flags).1 := by
  have hp := h.pushRegisteredPrefix ⟨r, prefixName, onInterest⟩ ho
  unfold Node.registerPrefixHelper
  split_ifs
  exacts [hp.record_quiet rfl, hp]

theorem Inv.call {s : Node} (h : Inv s) (codec : Codec) (link : Link) (c : Call) :
    Inv (s.call codec link c).1 := by
  cases c with
  | expressInterest i d t => exact h.expressInterest link i _ _ rfl (by simp) (by simp)
  | removePendingInterest k => exact h.removePendingInterest k
  | registerPrefix p oi orf fl =>
    have ht : Inv s.takeRegisteredPrefixId :=
      h.quiet rfl (List.Sublist.refl _) (List.append_nil _).symm (by simp) rfl (Nat.le_succ _)
    have ho := h.open_takeRegisteredPrefixId
    simp only [Node.call, Node.registerPrefix]
    split_ifs
    · refine ht.expressInterest link _ _ _ rfl (fun _ => rfl) fun r hr => ?_
      obtain rfl : s.lastRegisteredPrefixId + 1 = r := by simpa [Node.fetcherFor] using hr
      exact ho
    · exact ht.registerPrefixHelper codec link ho p oi orf fl
  | removeRegisteredPrefix k =>
    exact h.quiet rfl (eraseIds_sublist _ _ _) rfl (by simp [Event.quiet]) rfl (Nat.le_refl _)
  | shutdown =>
    exact h.quiet rfl (List.Sublist.refl _) (List.append_nil _).symm (by simp) rfl (Nat.le_refl _)

theorem Inv.runs {codec : Codec} {s t : Node} (hr : Runs codec s t) (h : Inv s) : Inv t := by
  induction hr with
  | refl => exact h
  | tail _ hstep ih =>
    cases hstep with
    | call link c => exact ih.call codec link c
    | elapse d => exact ih.elapse d

theorem Inv.afterCall {codec : Codec} {x : Node × Bool} {t : Node} (h : Inv x.1)
    (hcb : AfterCall (Runs codec) x t) : Inv t := by
  obtain ⟨u, _ | _⟩ := x
  · exact (show t = u from hcb) ▸ h
  · exact h.runs hcb

/-- **A timeout**: the entry leaves the PIT, and a probe's fetcher reports its registration as
failed. -/
theorem Inv.timeout {s : Node} (h : Inv s) {n : Nat} {e : PendingInterest}
    (hi : s.pendingInterestTable[n]? = some e) (now : Int) :
    Inv ((s.expire n e now).callTimeout e).1 := by
  have he : e ∈ s.pendingInterestTable := List.getElem?_mem hi
  obtain ⟨hx, hopen⟩ := h.fire hi (.onTimeout e now) (.inr ⟨now, rfl⟩)
  unfold Node.callTimeout
  split
  · exact hx
  · rename_i f hf
    have hr : e.onTimeout.fetcherId? = some f.registeredPrefixId := by simp [hf]
    exact hx.onRegisterFailed (hopen _ hr)
      ⟨s.log, e, now, rfl, hr, h.probe_interest e he (by simp [hr])⟩

theorem Inv.sweep {codec : Codec} {n : Nat} {now : Int} {s s' : Node} {o : Outcome}
    (hsw : Sweep (Runs codec) n now s s' o) (h : Inv s) : Inv s' := by
  induction hsw with
  | finish => exact h
  | outOfRange => exact h
  | keep _ _ _ _ _ _ _ _ _ ih => exact ih h
  | expire n now s t s' d o e hi _ hcb _ ih => exact ih (((h.timeout hi now).afterCall hcb).elapse d)

theorem Inv.onReceiveElement {s : Node} (h : Inv s) (codec : Codec) (link : Link) (b : Block) :
    Inv (s.onReceiveElement codec link b).1 := by
  cases b with
  | interest i =>
    simp only [Node.onReceiveElement]
    split
    · exact h
    · split <;> exact h.record_quiet rfl
  | data d =>
    simp only [Node.onReceiveElement]
    split
    · exact h
    · rename_i i e hfind
      have hi := getEntryIndexForExpressedInterest_getElem? hfind
      have he : e ∈ s.pendingInterestTable := List.getElem?_mem hi
      obtain ⟨hx, hopen⟩ := h.fire hi (.onData e) (.inl rfl)
      unfold Node.callOnData
      split
      · exact hx
      · exact hx
      · rename_i f hf
        have hr : e.onTimeout.fetcherId? = some f.registeredPrefixId := by
          rw [← h.probe e he, hf]; rfl
        have ho := hopen _ hr
        have hn : Inv ({ s.satisfy i e with ndndId := d.signature.keyLocator } : Node) :=
          hx.quiet rfl (List.Sublist.refl _) (List.append_nil _).symm (by simp) rfl (Nat.le_refl _)
        exact hn.registerPrefixHelper codec link ⟨ho.le, ho.unsettled, ho.unprobed⟩ _ _ _ _
  | other _ => exact h

theorem Inv.step {codec : Codec} {s t : Node} {o : Outcome} (hst : Step codec s t o)
    (h : Inv s) : Inv t := by
  cases hst with
  | call link c => exact h.call codec link c
  | elapse d => exact h.elapse d
  | receive t link b _ _ hcb => exact (h.onReceiveElement codec link b).afterCall hcb
  | tick t o _ _ hsweep =>
    have ht : Inv t := by
      rcases hsweep.cases with ⟨-, rfl, -⟩ | ⟨-, hsw⟩
      exacts [h, Inv.sweep hsw h]
    exact ht.quiet rfl (List.Sublist.refl _) (List.append_nil _).symm (by simp) rfl (Nat.le_refl _)

/-- **The invariant holds of every reachable node.** -/
theorem Inv.reachable {codec : Codec} {s : Node} (hs : Reachable codec s) : Inv s := by
  induction hs with
  | init c₁ c₂ clock => exact Inv.init c₁ c₂ clock
  | step _ hst _ ih => exact Inv.step hst ih

end Ndn
