import NdnNode.Invariant

/-!
# What every run guarantees

Read off `Inv.reachable`:

* ids: the PIT's ids increase along the table and stay at or below the counter, the RPT's are
  distinct, so a removal whose loop is defined takes out at most the one entry with the id
  (`reachable_ids_unique`);
* a PIT entry has at most one of its callbacks called, once (`fires_at_most_once`), and none
  after a cancellation on a table below `2^31` entries (`cancel_before_firing`);
* a registration ends at most once, registered or failed (`registerPrefix_settles_once`), and one
  made while the ndnd-ID is known is registered at once and never fails;
* a failure is reported only right after the registration's own probe timed out, for a prefix
  never registered (`onRegisterFailed_after_probe_timeout`); that can be after another
  registration's probe was answered (`registerPrefix_fails_after_probe_reply`).
-/

set_option autoImplicit false

namespace Ndn

open scoped List

/-! ## Ids -/

theorem ofNat_lt_ofNat_iff {a b : Nat} (ha : a < 2 ^ 64) (hb : b < 2 ^ 64) :
    UInt64.ofNat a < UInt64.ofNat b ↔ a < b := by
  simp [UInt64.lt_def, BitVec.lt_def, UInt64.toBitVec_eq_of_lt ha, UInt64.toBitVec_eq_of_lt hb]

theorem ofNat_le_ofNat_iff {a b : Nat} (ha : a < 2 ^ 64) (hb : b < 2 ^ 64) :
    UInt64.ofNat a ≤ UInt64.ofNat b ↔ a ≤ b := by
  simp [UInt64.le_def, BitVec.le_def, UInt64.toBitVec_eq_of_lt ha, UInt64.toBitVec_eq_of_lt hb]

theorem filter_ne_eq_erase {α : Type} [DecidableEq α] (f : α → UInt64) {e : α} :
    ∀ {l : List α}, (l.map f).Nodup → e ∈ l →
      l.filter (fun a => f a ≠ f e) = l.erase e
  | a :: l, hnd, he => by
    rw [List.map_cons, List.nodup_cons] at hnd
    by_cases hae : a = e
    · subst hae
      rw [List.erase_cons_head, List.filter_cons_of_neg (by simp), List.filter_eq_self.2]
      intro b hb
      simp only [decide_eq_true_eq, ne_eq]
      exact fun h => hnd.1 (h ▸ List.mem_map_of_mem f hb)
    · have he' := (List.mem_cons.1 he).resolve_left (Ne.symm hae)
      have hf : f a ≠ f e := fun h => hnd.1 (h ▸ List.mem_map_of_mem f he')
      rw [List.erase_cons_tail (by simpa using hae), List.filter_cons_of_pos (by simpa using hf),
        filter_ne_eq_erase f hnd.2 he']

/-- With distinct ids, the erase loop takes out nothing, or the one entry with the id. -/
theorem eraseIds_nodup {α : Type} [DecidableEq α] (getId : α → UInt64) (k : UInt64) {n : Nat}
    {t : List α} (hn : n ≤ t.length) (hnd : (t.map getId).Nodup) :
    eraseIds getId k n t = t ∨ ∃ e ∈ t, getId e = k ∧ eraseIds getId k n t = t.erase e := by
  rw [eraseIds_eq _ _ _ _ hn]
  by_cases hk : ∃ e ∈ t.take n, getId e = k
  · obtain ⟨e, he, rfl⟩ := hk
    have hnd' : ((t.take n).map getId).Nodup :=
      hnd.sublist ((List.take_sublist _ _).map _)
    refine .inr ⟨e, List.take_subset _ _ he, rfl, ?_⟩
    rw [filter_ne_eq_erase getId hnd' he, ← List.erase_append_left _ he, List.take_append_drop]
  · refine .inl ?_
    rw [List.filter_eq_self.2, List.take_append_drop]
    exact fun e he => by simpa using fun h => hk ⟨e, he, h⟩

theorem Inv.rpt_le {s : Node} (h : Inv s) :
    ∀ e ∈ s.registeredPrefixTable, e.registeredPrefixId ≤ s.lastRegisteredPrefixId := by
  intro e he
  by_contra hlt
  have : 0 < s.log.countP (·.settlesRegistration e.registeredPrefixId) :=
    List.countP_pos_iff.2 ⟨_, h.rpt_logged e he, by simp [Event.settlesRegistration]⟩
  rw [h.settles_le _ (by omega)] at this
  exact absurd this (Nat.lt_irrefl 0)

/-- **Ids are unique.**  While fewer than `2^64` ids of each kind have been handed out, the ids
of the PIT strictly increase along the table and none is above the last one handed out, and the
ids of the RPT are distinct.  So `removePendingInterest(k)` and `removeRegisteredPrefix(k)`, on a
table where the erase loop's bound does not overflow, leave their table as it was, or take out
exactly the one entry whose id is `k`. -/
theorem reachable_ids_unique {codec : Codec} {s : Node} (hs : Reachable codec s)
    (hp : s.lastPendingInterestId < 2 ^ 64) (hr : s.lastRegisteredPrefixId < 2 ^ 64) :
    (s.pendingInterestTable.map PendingInterest.getPendingInterestId).Pairwise (· < ·) ∧
    (∀ e ∈ s.pendingInterestTable,
      e.getPendingInterestId ≤ UInt64.ofNat s.lastPendingInterestId) ∧
    (s.registeredPrefixTable.map RegisteredPrefix.getRegisteredPrefixId).Nodup ∧
    (loopOverflows s.pendingInterestTable.length = false → ∀ k,
      (s.removePendingInterest k).pendingInterestTable = s.pendingInterestTable ∨
      ∃ e ∈ s.pendingInterestTable, e.getPendingInterestId = k ∧
        (s.removePendingInterest k).pendingInterestTable = s.pendingInterestTable.erase e) ∧
    (loopOverflows s.registeredPrefixTable.length = false → ∀ k,
      (s.removeRegisteredPrefix k).registeredPrefixTable = s.registeredPrefixTable ∨
      ∃ e ∈ s.registeredPrefixTable, e.getRegisteredPrefixId = k ∧
        (s.removeRegisteredPrefix k).registeredPrefixTable = s.registeredPrefixTable.erase e) := by
  have h := Inv.reachable hs
  have hpit : ∀ e ∈ s.pendingInterestTable, e.pendingInterestId < 2 ^ 64 :=
    fun e he => lt_of_le_of_lt (h.pit_le e he) hp
  have hrpt : ∀ e ∈ s.registeredPrefixTable, e.registeredPrefixId < 2 ^ 64 :=
    fun e he => lt_of_le_of_lt (h.rpt_le e he) hr
  have hsorted : (s.pendingInterestTable.map PendingInterest.getPendingInterestId).Pairwise (· < ·) := by
    rw [List.pairwise_map]
    have := List.pairwise_map.1 h.pit_sorted
    exact this.imp_of_mem fun ha hb hab =>
      (ofNat_lt_ofNat_iff (hpit _ ha) (hpit _ hb)).2 hab
  have hnd : (s.registeredPrefixTable.map RegisteredPrefix.getRegisteredPrefixId).Nodup := by
    rw [List.Nodup, List.pairwise_map]
    have := List.pairwise_map.1 h.rpt_nodup
    exact this.imp_of_mem fun ha hb hab heq => hab (by
      have := congrArg UInt64.toNat heq
      simpa [RegisteredPrefix.getRegisteredPrefixId, UInt64.toNat_ofNat_of_lt (hrpt _ ha),
        UInt64.toNat_ofNat_of_lt (hrpt _ hb)] using this)
  refine ⟨hsorted, fun e he => (ofNat_le_ofNat_iff (hpit e he) hp).2 (h.pit_le e he), hnd,
    fun _ k => eraseIds_nodup _ k (loopCount_le _) ?_,
    fun _ k => eraseIds_nodup _ k (loopCount_le _) hnd⟩
  exact hsorted.imp UInt64.ne_of_lt

/-- A prefix registered once its probe was answered, then two Interests expressed: the PIT holds
ids 2 and 3, the RPT id 1, and cancelling 2 takes out its entry alone. -/
theorem reachable_ids_unique_registered_and_expressed :
    let s₁ := ((Node.init 0 0 0).call emptyCodec okLink
      (.registerPrefix anyInterest.name (some 0) none ⟨0⟩)).1
    let reply : Data := { name := ndndIdFetcherInterest.name, signature := { keyLocator := [1] } }
    let s₂ := ((s₁.onReceiveElement emptyCodec okLink (.data reply)).1.call emptyCodec okLink
      (.expressInterest anyInterest none none)).1
    let s := (s₂.call emptyCodec okLink (.expressInterest anyInterest none none)).1
    Reachable emptyCodec s ∧ s.lastPendingInterestId < 2 ^ 64 ∧
      s.lastRegisteredPrefixId < 2 ^ 64 ∧
      s.pendingInterestTable.map PendingInterest.getPendingInterestId = [2, 3] ∧
      s.registeredPrefixTable.map RegisteredPrefix.getRegisteredPrefixId = [1] ∧
      (s.pendingInterestTable.map PendingInterest.getPendingInterestId).Pairwise (· < ·) ∧
      (∀ e ∈ s.pendingInterestTable,
        e.getPendingInterestId ≤ UInt64.ofNat s.lastPendingInterestId) ∧
      (s.registeredPrefixTable.map RegisteredPrefix.getRegisteredPrefixId).Nodup ∧
      (loopOverflows s.pendingInterestTable.length = false → ∀ k,
        (s.removePendingInterest k).pendingInterestTable = s.pendingInterestTable ∨
        ∃ e ∈ s.pendingInterestTable, e.getPendingInterestId = k ∧
          (s.removePendingInterest k).pendingInterestTable = s.pendingInterestTable.erase e) ∧
      (loopOverflows s.registeredPrefixTable.length = false → ∀ k,
        (s.removeRegisteredPrefix k).registeredPrefixTable = s.registeredPrefixTable ∨
        ∃ e ∈ s.registeredPrefixTable, e.getRegisteredPrefixId = k ∧
          (s.removeRegisteredPrefix k).registeredPrefixTable =
            s.registeredPrefixTable.erase e) := by
  intro s₁ reply s₂ s
  have hs : Reachable emptyCodec s :=
    ((((Reachable.init 0 0 0).call okLink _ (by decide)).step
      (.receive s₁ _ okLink (.data reply) rfl rfl rfl) (by decide)).call okLink _ (by decide)).call
      okLink _ (by decide)
  exact ⟨hs, by decide, by decide, by decide, by decide,
    reachable_ids_unique hs (by decide) (by decide)⟩

/-! ## Pending Interests -/

/-- **At most once.**  In every run, each PIT id has at most one of its callbacks called, at
most once: `onData` and `onTimeout` together fire at most once per entry. -/
theorem fires_at_most_once {codec : Codec} {s : Node} (hs : Reachable codec s) (k : Nat) :
    s.log.countP (·.firesPendingInterest k) ≤ 1 :=
  (Nat.le_add_right _ _).trans ((Inv.reachable hs).fires_once k)

/-- An Interest of lifetime 0 answered by Data, then a tick 100 ms later: its `onData` was
called, and the sweep calls no timeout of it. -/
theorem fires_at_most_once_answered_then_tick :
    let s₁ := ((Node.init 0 0 0).call emptyCodec okLink
      (.expressInterest anyInterest (some 0) none)).1
    let s₂ := (s₁.onReceiveElement emptyCodec okLink (.data {})).1.elapse 100
    let e := (Node.init 0 0 0).newPendingInterest anyInterest (.app (some 0)) (.app none)
    Reachable emptyCodec s₂.rearm ∧ Event.onData e ∈ s₂.rearm.log ∧
      s₂.rearm.log.countP (·.firesPendingInterest e.pendingInterestId) ≤ 1 := by
  intro s₁ s₂ e
  have hs : Reachable emptyCodec s₂.rearm :=
    ((((Reachable.init 0 0 0).call okLink _ (by decide)).step
      (.receive s₁ _ okLink (.data {}) rfl rfl .refl) (by decide)).elapse 100).step
      (.tick s₂ s₂ .ok rfl (by decide) (.of_sweep rfl (.finish _ _))) Outcome.noConfusion
  exact ⟨hs, by decide, fires_at_most_once hs _⟩

/-- **A cancellation sticks.**  Once `removePendingInterest` is called with the id of an entry
expressed earlier, on a table below `2^31` entries, no callback of that entry is called again. -/
theorem cancel_before_firing {codec : Codec} {s : Node} (hs : Reachable codec s)
    {l₁ l₂ : List Event} {e : PendingInterest} {sz : Nat}
    (h : s.log = l₁ ++ .cancel e.getPendingInterestId sz :: l₂) (hex : Event.express e ∈ l₁)
    (hsz : sz < 2 ^ 31) : ∀ ev ∈ l₂, ev.firesPendingInterest e.pendingInterestId = false :=
  ((Inv.reachable hs).cancelled l₁ sz l₂ e h hex hsz).2

/-- Two Interests for the same name; the first is cancelled, and a Data packet then answers the
second, not the first. -/
theorem cancel_before_firing_then_data :
    let s₁ := ((Node.init 0 0 0).call emptyCodec okLink
      (.expressInterest anyInterest (some 0) none)).1
    let s₂ := (s₁.call emptyCodec okLink (.expressInterest anyInterest (some 1) none)).1
    let s₃ := (s₂.call emptyCodec okLink (.removePendingInterest 1)).1
    let s := (s₃.onReceiveElement emptyCodec okLink (.data {})).1
    let e := (Node.init 0 0 0).newPendingInterest anyInterest (.app (some 0)) (.app none)
    let f := s₁.newPendingInterest anyInterest (.app (some 1)) (.app none)
    Reachable emptyCodec s ∧ s.log = s₂.log ++ .cancel e.getPendingInterestId 2 :: [.onData f] ∧
      Event.express e ∈ s₂.log ∧ 2 < 2 ^ 31 ∧
      ∀ ev ∈ [Event.onData f], ev.firesPendingInterest e.pendingInterestId = false := by
  intro s₁ s₂ s₃ s e f
  have hs : Reachable emptyCodec s :=
    (((Reachable.init 0 0 0).call okLink _ (by decide)).call okLink _ (by decide)).call okLink _
      (by decide) |>.step (.receive s₃ _ okLink (.data {}) rfl rfl .refl) (by decide)
  have h : s.log = s₂.log ++ .cancel e.getPendingInterestId 2 :: [.onData f] := by decide
  exact ⟨hs, h, by decide, by decide, cancel_before_firing hs h (by decide) (by decide)⟩

/-! ## Registrations -/

theorem two_le_countP {α : Type} {p : α → Bool} {l : List α} {a b : α} (ha : a ∈ l) (hb : b ∈ l)
    (hab : a ≠ b) (hpa : p a = true) (hpb : p b = true) : 2 ≤ l.countP p := by
  obtain ⟨l₁, l₂, rfl⟩ := List.append_of_mem ha
  have hb' : b ∈ l₁ ++ l₂ := by
    simp only [List.mem_append, List.mem_cons] at hb ⊢
    rcases hb with hb | rfl | hb
    exacts [.inl hb, absurd rfl hab, .inr hb]
  have := List.countP_pos_iff.2 ⟨b, hb', hpb⟩
  simp only [List.countP_append, List.countP_cons, hpa, ite_true] at this ⊢
  omega

/-- A prefix registered under `r` and a failure reported for `r` never share a run. -/
theorem Inv.register_not_failed {s : Node} (h : Inv s) {e : RegisteredPrefix}
    (he : Event.register e ∈ s.log) (hf : Event.onRegisterFailed e.registeredPrefixId ∈ s.log) :
    False := by
  have := two_le_countP he hf (by simp) (p := (·.settlesRegistration e.registeredPrefixId))
    (by simp [Event.settlesRegistration]) (by simp [Event.settlesRegistration])
  have := (Nat.le_add_right _ _).trans (h.settles_once e.registeredPrefixId)
  omega

/-- **A registration ends once.**  In every run, each registration id is settled at most once:
its prefix enters the RPT at most once, its `onRegisterFailed` is called at most once, and not
both.  A registration made while the ndnd-ID is known puts its entry into the RPT before
`registerPrefix` returns, and its `onRegisterFailed` is never called afterwards. -/
theorem registerPrefix_settles_once {codec : Codec} {s : Node} (hs : Reachable codec s) :
    (∀ r, s.log.countP (·.settlesRegistration r) ≤ 1) ∧
    ∀ (link : Link) (prefixName : Name) (onInterest onRegisterFailed : Callback)
      (flags : ForwardingFlags), s.ndndId ≠ [] →
      let t := (s.registerPrefix codec link prefixName onInterest onRegisterFailed flags).1
      let r := s.lastRegisteredPrefixId + 1
      (⟨r, prefixName, onInterest⟩ : RegisteredPrefix) ∈ t.registeredPrefixTable ∧
        ∀ s', Reachable codec s' → t.log <+: s'.log → Event.onRegisterFailed r ∉ s'.log := by
  refine ⟨fun r => (Nat.le_add_right _ _).trans ((Inv.reachable hs).settles_once r),
    fun link p oi orf fl hn => ?_⟩
  have hlen : s.ndndId.length ≠ 0 := fun h => hn (List.length_eq_zero.1 h)
  have ht : (⟨s.lastRegisteredPrefixId + 1, p, oi⟩ : RegisteredPrefix) ∈
        (s.registerPrefix codec link p oi orf fl).1.registeredPrefixTable ∧
      Event.register ⟨s.lastRegisteredPrefixId + 1, p, oi⟩ ∈
        (s.registerPrefix codec link p oi orf fl).1.log := by
    simp only [Node.registerPrefix, Node.takeRegisteredPrefixId_ndndId, hlen, if_false,
      Node.registerPrefixHelper]
    split_ifs <;> simp
  exact ⟨ht.1, fun s' hs' hpre hfail =>
    (Inv.reachable hs').register_not_failed (hpre.subset ht.2) hfail⟩

theorem registerPrefix_settles_once_after_reply :
    let s₁ := ((Node.init 0 0 0).call emptyCodec okLink
      (.registerPrefix anyInterest.name (some 0) none ⟨0⟩)).1
    let reply : Data := { name := ndndIdFetcherInterest.name, signature := { keyLocator := [1] } }
    let s := (s₁.onReceiveElement emptyCodec okLink (.data reply)).1
    Reachable emptyCodec s ∧ s.ndndId ≠ [] ∧ (⟨2, anyInterest.name, none⟩ : RegisteredPrefix) ∈
      (s.registerPrefix emptyCodec okLink anyInterest.name none none ⟨0⟩).1.registeredPrefixTable := by
  intro s₁ reply s
  have hs : Reachable emptyCodec s := ((Reachable.init 0 0 0).call okLink _ (by decide)).step
    (.receive s₁ _ okLink (.data reply) rfl rfl rfl) (by decide)
  exact ⟨hs, by decide,
    ((registerPrefix_settles_once hs).2 okLink anyInterest.name none none ⟨0⟩ (by decide)).1⟩

/-- **Failures follow the registration's own probe.**  `onRegisterFailed` for registration `r`
is called only right after the timeout of a probe carrying `r`'s fetcher, and only for a
registration whose prefix never entered the RPT. -/
theorem onRegisterFailed_after_probe_timeout {codec : Codec} {s : Node} (hs : Reachable codec s)
    {l₁ l₂ : List Event} {r : Nat} (h : s.log = l₁ ++ .onRegisterFailed r :: l₂) :
    (∃ l₀ e c, l₁ = l₀ ++ [.onTimeout e c] ∧ e.onTimeout.fetcherId? = some r ∧
      e.interest = ndndIdFetcherInterest) ∧
    ∀ e, Event.register e ∈ s.log → e.registeredPrefixId ≠ r := by
  have hi := Inv.reachable hs
  refine ⟨hi.failures l₁ r l₂ h, fun e he hr => hi.register_not_failed he ?_⟩
  rw [hr, h]
  exact List.mem_append_right _ (List.mem_cons_self _ _)

/-- One registration waits for the ndnd-ID; its probe times out 4 s later and the registration is
reported as failed. -/
theorem onRegisterFailed_after_probe_timeout_single :
    let fetcher := (Node.init 0 0 0).fetcherFor anyInterest.name none (some 0) ⟨0⟩
    let probe := (Node.init 0 0 0).newPendingInterest ndndIdFetcherInterest fetcher fetcher
    let s₂ := ((Node.init 0 0 0).call emptyCodec okLink
      (.registerPrefix anyInterest.name none (some 0) ⟨0⟩)).1.elapse 4000
    let s := (((s₂.expire 0 probe 4000).callTimeout probe).1.elapse 0).rearm
    Reachable emptyCodec s ∧ s.log = (s₂.expire 0 probe 4000).log ++ [.onRegisterFailed 1] ∧
      (∃ l₀ e c, (s₂.expire 0 probe 4000).log = l₀ ++ [.onTimeout e c] ∧
        e.onTimeout.fetcherId? = some 1 ∧ e.interest = ndndIdFetcherInterest) ∧
      ∀ e, Event.register e ∈ s.log → e.registeredPrefixId ≠ 1 := by
  intro fetcher probe s₂ s
  have hs : Reachable emptyCodec s :=
    (((Reachable.init 0 0 0).call okLink _ (by decide)).elapse 4000).step
      (.tick s₂ _ .ok rfl (by decide)
        (.of_sweep rfl (.expire 0 4000 s₂ _ _ 0 _ _ rfl rfl .refl (.finish _ _))))
      Outcome.noConfusion
  have h : s.log = (s₂.expire 0 probe 4000).log ++ [.onRegisterFailed 1] := rfl
  exact ⟨hs, h, onRegisterFailed_after_probe_timeout hs h⟩

/-- Two registrations wait for the ndnd-ID, each with its own probe.  The reply satisfies the
first probe and the node stores the ndnd-ID; the second probe times out 4 s later, and the second
registration is reported as failed though the ndnd-ID is known. -/
theorem registerPrefix_fails_after_probe_reply :
    ∃ s, Reachable emptyCodec s ∧ s.ndndId ≠ [] ∧
      ∃ l e, s.log = l ++ [.onRegisterFailed 2] ∧ Event.onData e ∈ l ∧
        e.interest = ndndIdFetcherInterest := by
  let s₁ := ((Node.init 0 0 0).call emptyCodec okLink
    (.registerPrefix anyInterest.name (some 0) (some 0) ⟨0⟩)).1
  let s₂ := (s₁.call emptyCodec okLink (.registerPrefix anyInterest.name (some 0) (some 0) ⟨0⟩)).1
  let reply : Data := { name := ndndIdFetcherInterest.name, signature := { keyLocator := [1] } }
  let s₃ := (s₂.onReceiveElement emptyCodec okLink (.data reply)).1.elapse 4000
  let fetcher (s : Node) := s.fetcherFor anyInterest.name (some 0) (some 0) ⟨0⟩
  let probe₁ := (Node.init 0 0 0).newPendingInterest ndndIdFetcherInterest (fetcher (Node.init 0 0 0))
    (fetcher (Node.init 0 0 0))
  let probe := s₁.newPendingInterest ndndIdFetcherInterest (fetcher s₁) (fetcher s₁)
  let t := ((s₃.expire 0 probe 4000).callTimeout probe).1
  have hs₃ : Reachable emptyCodec s₃ :=
    (((Reachable.init 0 0 0).call _ _ (by decide)).call _ _ (by decide) |>.step
      (.receive s₂ _ okLink (.data reply) rfl rfl rfl) (by decide)).elapse 4000
  refine ⟨(t.elapse 0).rearm, hs₃.step (.tick s₃ _ .ok rfl (by decide) ?_) Outcome.noConfusion,
    by decide, (s₃.expire 0 probe 4000).log, probe₁, rfl, by decide, rfl⟩
  have h1 : s₃.pendingInterestTable.length = 0 + 1 := by decide
  rw [checkPitExpire_of_lt (by rw [h1]; decide), h1]
  exact .expire 0 4000 s₃ t _ 0 _ _ rfl rfl .refl (.finish _ _)

end Ndn
