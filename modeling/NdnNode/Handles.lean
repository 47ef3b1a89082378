import NdnNode.Preserved
import NdnNode.Guarantees

/-!
# Handles

`expressInterest` and `registerPrefix` return a `uint64_t` the application keeps as a handle: it
is the only way to call `removePendingInterest` or `removeRegisteredPrefix` on what it asked for.
This file says what such a handle is worth.

* `expressed_ids_increase`: no id is handed out twice.  In every run the ids of the entries the
  node expresses strictly increase, in the order they were expressed, whether or not the entries
  are still in the PIT (spec §3: an id is never reused).  `reachable_ids_unique` says as much of
  one table; this is about the whole history.
* `expressInterest_removePendingInterest`: a handle cancels exactly its own Interest.  From a
  reachable node, cancelling with the id `expressInterest` returned gives back the PIT as it was.
* `registerPrefix_removeRegisteredPrefix`: likewise for a registration, as far as the RPT goes.
  While the ndnd-ID is unknown, though, the registration lives in the probe's fetcher, which the
  removal does not reach: the probe stays in the PIT, and its reply will register the prefix
  after all (`registerPrefix_probe_after_removal`).
* `removePendingInterest_idempotent`: cancelling twice is cancelling once, for both tables.
  Where the first removal is defined so is the second, and even where the erase loop skips
  entries, its second run visits only what the first kept.
* `removePendingInterest_after_firing`: cancelling an entry whose callback has been called
  leaves the PIT as it was, as spec §5 says.
-/

set_option autoImplicit false

namespace Ndn

open scoped List

/-! ## Ids are never reused -/

/-- The ids of the entries a node has expressed strictly increase along its log, and none is
above the counter. -/
def ExpressedIdsFresh (s : Node) : Prop :=
  ((s.log.filterMap Event.expressed?).map (·.pendingInterestId)).Pairwise (· < ·) ∧
    ∀ e ∈ s.log.filterMap Event.expressed?, e.pendingInterestId ≤ s.lastPendingInterestId

/-- Events that express nothing, and a counter that does not go back, keep the ids fresh. -/
theorem ExpressedIdsFresh.append {s t : Node} (h : ExpressedIdsFresh s) {evs : List Event}
    (hl : t.log = s.log ++ evs) (hx : evs.filterMap Event.expressed? = [])
    (hc : s.lastPendingInterestId ≤ t.lastPendingInterestId) : ExpressedIdsFresh t := by
  rw [ExpressedIdsFresh, hl, List.filterMap_append, hx, List.append_nil]
  exact ⟨h.1, fun e he => Nat.le_trans (h.2 e he) hc⟩

/-- A call expresses at most one entry, with the id just above every id expressed before. -/
theorem ExpressedIdsFresh.call {s : Node} (h : ExpressedIdsFresh s) (codec : Codec) (link : Link)
    (c : Call) : ExpressedIdsFresh (s.call codec link c).1 := by
  obtain ⟨evs, hl, -, hcount, -, -, -⟩ := s.call_effect codec link c
  rcases hcount with ⟨hids, hc⟩ | ⟨hx, hc⟩
  · have hnew : ∀ e ∈ evs.filterMap Event.expressed?,
        e.pendingInterestId = s.lastPendingInterestId + 1 := fun e he => by
      have : e.pendingInterestId ∈ (evs.filterMap Event.expressed?).map (·.pendingInterestId) :=
        List.mem_map_of_mem _ he
      rwa [hids, List.mem_singleton] at this
    rw [ExpressedIdsFresh, hl, List.filterMap_append, List.map_append, hids, hc]
    refine ⟨List.pairwise_append.2 ⟨h.1, List.pairwise_singleton _ _, fun a ha b hb => ?_⟩,
      fun e he => ?_⟩
    · obtain ⟨e, he, rfl⟩ := List.mem_map.1 ha
      rw [List.mem_singleton.1 hb]
      exact Nat.lt_succ_of_le (h.2 e he)
    · rcases List.mem_append.1 he with he | he
      exacts [Nat.le_succ_of_le (h.2 e he), Nat.le_of_eq (hnew e he)]
  · exact h.append hl hx (Nat.le_of_eq hc.symm)

theorem expressedIdsFresh_preserved (codec : Codec) : Preserved codec ExpressedIdsFresh where
  call s link c h := h.call codec link c
  elapse _ _ h := h
  receive s link b h := by
    obtain ⟨evs, hl, hx, -, hc, -, -⟩ := s.onReceiveElement_effect codec link b
    exact h.append hl hx (Nat.le_of_eq hc.symm)
  timeout s n e _ _ h := by
    obtain ⟨evs, hl, hx, -, -, hc, -⟩ := (s.expire n e s.clock).callTimeout_effect e
    exact (h.append (Node.expire_log s n e s.clock) rfl (Nat.le_refl _)).append hl hx
      (Nat.le_of_eq hc.symm)
  rearm _ h := h

/-- **No id is handed out twice.**  In every run, while fewer than `2^64` ids have been handed
out, the `uint64_t` ids of the entries the node has expressed — each id `expressInterest`
returned, and each ndnd-ID probe's — strictly increase in the order they were expressed, whether
or not their entries are still in the PIT. -/
theorem expressed_ids_increase {codec : Codec} {s : Node} (hs : Reachable codec s)
    (hp : s.lastPendingInterestId < 2 ^ 64) :
    ((s.log.filterMap Event.expressed?).map PendingInterest.getPendingInterestId).Pairwise
      (· < ·) := by
  obtain ⟨hsorted, hle⟩ := (expressedIdsFresh_preserved codec).reachable
    (fun _ _ _ => ⟨by simp [Node.init], by simp [Node.init]⟩) hs
  rw [List.pairwise_map] at hsorted ⊢
  exact hsorted.imp_of_mem fun ha hb hab => (ofNat_lt_ofNat_iff
    (Nat.lt_of_le_of_lt (hle _ ha) hp) (Nat.lt_of_le_of_lt (hle _ hb) hp)).2 hab

/-- Two Interests expressed from a fresh node get ids 1 and 2. -/
theorem expressed_ids_increase_two_expresses :
    let s := (((Node.init 0 0 0).call emptyCodec okLink
      (.expressInterest anyInterest none none)).1.call emptyCodec okLink
      (.expressInterest anyInterest none none)).1
    Reachable emptyCodec s ∧ s.lastPendingInterestId < 2 ^ 64 ∧
      (s.log.filterMap Event.expressed?).map PendingInterest.getPendingInterestId = [1, 2] ∧
      ((s.log.filterMap Event.expressed?).map PendingInterest.getPendingInterestId).Pairwise
        (· < ·) := by
  intro s
  have hs : Reachable emptyCodec s :=
    ((Reachable.init 0 0 0).call okLink _ (by decide)).call okLink _ (by decide)
  have hp : s.lastPendingInterestId < 2 ^ 64 := by decide
  exact ⟨hs, hp, rfl, expressed_ids_increase hs hp⟩

/-! ## What a handle removes -/

/-- An entry whose id is just above every id of a table, and below `2^64`, is the one entry a
filter on its `uint64_t` takes out. -/
theorem filter_append_fresh {α : Type} (id : α → Nat) {t : List α} {c : Nat} {e : α}
    (ht : ∀ x ∈ t, id x ≤ c) (he : id e = c + 1) (hc : c + 1 < 2 ^ 64) :
    (t ++ [e]).filter (fun x => UInt64.ofNat (id x) ≠ UInt64.ofNat (id e)) = t := by
  rw [List.filter_append, List.filter_singleton, List.filter_eq_self.2]
  · simp
  · intro x hx
    have hx' := ht x hx
    have hlt : UInt64.ofNat (id x) < UInt64.ofNat (id e) :=
      (ofNat_lt_ofNat_iff (by omega) (by omega)).2 (by omega)
    simpa using UInt64.ne_of_lt hlt

/-- The erase loop takes out nothing when no entry has the id. -/
theorem eraseIds_of_forall_ne {α : Type} (getId : α → UInt64) (k : UInt64) {t : List α}
    (h : ∀ x ∈ t, getId x ≠ k) : ∀ n, eraseIds getId k n t = t
  | 0 => rfl
  | n + 1 => by
    rw [eraseIds, if_neg, eraseIds_of_forall_ne getId k h n]
    intro hn
    obtain ⟨x, hx, hxk⟩ := Option.map_eq_some'.1 hn
    exact h x (List.getElem?_mem hx) hxk

/-- **A handle cancels its own Interest.**  From a reachable node, while fewer than `2^64` ids
have been handed out and the PIT stays below `2^31` entries, `removePendingInterest` with the id
`expressInterest` returned takes out the entry that call added and nothing else: the PIT is as it
was before the `expressInterest`. -/
theorem expressInterest_removePendingInterest {codec : Codec} {s : Node} (hs : Reachable codec s)
    (link : Link) (interest : Interest) (onData onTimeout : PendingCallback) {k : UInt64}
    (hp : s.lastPendingInterestId + 1 < 2 ^ 64)
    (hlen : s.pendingInterestTable.length + 1 < 2 ^ 31)
    (hk : (s.expressInterest link interest onData onTimeout).2 = .ok k) :
    ((s.expressInterest link interest onData onTimeout).1.removePendingInterest k).pendingInterestTable =
      s.pendingInterestTable := by
  unfold Node.expressInterest at hk ⊢
  -- only a call that connects and sends returns an id
  split_ifs at hk ⊢
  cases hk
  simp only [Node.removePendingInterest_pendingInterestTable, Node.record_pendingInterestTable,
    Node.pushPendingInterest_pendingInterestTable, Node.connect_pendingInterestTable,
    Node.connect_newPendingInterest]
  rw [loopCount_of_lt (by simpa using hlen), eraseIds_length]
  exact filter_append_fresh PendingInterest.pendingInterestId
    (e := s.newPendingInterest interest onData onTimeout) (Inv.reachable hs).pit_le rfl hp

/-- With one Interest pending, expressing a second returns id 2, and cancelling 2 leaves the
first alone in the PIT. -/
theorem expressInterest_removePendingInterest_second :
    let s := ((Node.init 0 0 0).call emptyCodec okLink
      (.expressInterest anyInterest none none)).1
    let r := s.expressInterest okLink anyInterest (.app none) (.app none)
    Reachable emptyCodec s ∧ s.pendingInterestTable.length = 1 ∧ r.2 = .ok 2 ∧
      (r.1.removePendingInterest 2).pendingInterestTable = s.pendingInterestTable := by
  intro s r
  have hs : Reachable emptyCodec s := (Reachable.init 0 0 0).call okLink _ (by decide)
  have hk : r.2 = .ok 2 := rfl
  exact ⟨hs, rfl, hk, expressInterest_removePendingInterest hs okLink anyInterest (.app none)
    (.app none) (by decide) (by decide) hk⟩

/-- **What a registration handle removes.**  From a reachable node, while fewer than `2^64`
registration ids have been handed out and the RPT stays below `2^31` entries,
`removeRegisteredPrefix` with the id `registerPrefix` returned gives back the RPT as it was
before the `registerPrefix`.  When the ndnd-ID was unknown, that is all it does: the ndnd-ID
probe, carrying this registration's fetcher, stays in the PIT. -/
theorem registerPrefix_removeRegisteredPrefix {codec : Codec} {s : Node}
    (hs : Reachable codec s) (link : Link) (prefixName : Name)
    (onInterest onRegisterFailed : Callback) (flags : ForwardingFlags) {k : UInt64}
    (hr : s.lastRegisteredPrefixId + 1 < 2 ^ 64)
    (hlen : s.registeredPrefixTable.length + 1 < 2 ^ 31)
    (hk : (s.registerPrefix codec link prefixName onInterest onRegisterFailed flags).2 = .ok k) :
    let t := (s.registerPrefix codec link prefixName onInterest onRegisterFailed flags).1
    (t.removeRegisteredPrefix k).registeredPrefixTable = s.registeredPrefixTable ∧
      (s.ndndId = [] → ∃ e ∈ (t.removeRegisteredPrefix k).pendingInterestTable,
        e.onData = s.fetcherFor prefixName onInterest onRegisterFailed flags) := by
  have hle := (Inv.reachable hs).rpt_le
  simp only [Node.registerPrefix, Node.takeRegisteredPrefixId_ndndId] at hk ⊢
  split_ifs at hk ⊢ with hn
  · -- the probe: the RPT is untouched, and no entry of it has the new id
    unfold Node.expressInterest at hk ⊢
    split_ifs at hk ⊢
    · cases hk
      let f := s.fetcherFor prefixName onInterest onRegisterFailed flags
      refine ⟨eraseIds_of_forall_ne _ _ (fun x hx hxk => ?_) _,
        fun _ => ⟨s.newPendingInterest ndndIdFetcherInterest f f, ?_, rfl⟩⟩
      · have := (ofNat_lt_ofNat_iff (Nat.lt_of_le_of_lt (hle x (by simpa using hx)) (by omega))
          hr).2 (Nat.lt_succ_of_le (hle x (by simpa using hx)))
        exact UInt64.ne_of_lt this hxk
      · simp
    all_goals cases hk
  · -- registered at once: the new entry is the one with the new id
    refine ⟨?_, fun h => absurd (h ▸ rfl) hn⟩
    unfold Node.registerPrefixHelper at hk ⊢
    split_ifs at hk ⊢
    · cases hk
      simp only [Node.removeRegisteredPrefix_registeredPrefixTable,
        Node.record_registeredPrefixTable, Node.pushRegisteredPrefix_registeredPrefixTable,
        Node.takeRegisteredPrefixId_registeredPrefixTable]
      rw [loopCount_of_lt (by simpa using hlen), eraseIds_length]
      exact filter_append_fresh RegisteredPrefix.registeredPrefixId
        (e := ⟨s.lastRegisteredPrefixId + 1, prefixName, onInterest⟩) hle rfl hr
    all_goals cases hk

/-- A fresh node, whose ndnd-ID is unknown, registers `/` under id 1 and removes 1: the RPT is
empty as before, and the probe for registration 1 is still pending. -/
theorem registerPrefix_removeRegisteredPrefix_probe :
    let t := ((Node.init 0 0 0).registerPrefix emptyCodec okLink ⟨[]⟩ none none ⟨0⟩).1
    Reachable emptyCodec (Node.init 0 0 0) ∧
      ((Node.init 0 0 0).registerPrefix emptyCodec okLink ⟨[]⟩ none none ⟨0⟩).2 = .ok 1 ∧
      (t.removeRegisteredPrefix 1).registeredPrefixTable = [] ∧
      ∃ e ∈ (t.removeRegisteredPrefix 1).pendingInterestTable,
        e.onData = (Node.init 0 0 0).fetcherFor ⟨[]⟩ none none ⟨0⟩ :=
  have hk : ((Node.init 0 0 0).registerPrefix emptyCodec okLink ⟨[]⟩ none none ⟨0⟩).2 = .ok 1 :=
    rfl
  have hs : Reachable emptyCodec (Node.init 0 0 0) := .init 0 0 0
  have h := registerPrefix_removeRegisteredPrefix hs okLink ⟨[]⟩ none none ⟨0⟩
    (by decide) (by decide) hk
  ⟨hs, hk, h.1, h.2 rfl⟩

/-! ## Cancelling again -/

/-- The loop bound of a table the erase loop has left falls within the part it filtered: the loop
over `L` entries filters the first `m = loopCount L` of them down to `f`. -/
theorem loopCount_filtered_le {L m f : Nat} (hm : m = loopCount L) (hf : f ≤ m) :
    loopCount (f + (L - m)) ≤ f := by
  subst hm
  simp only [loopCount] at *
  split_ifs at * <;> omega

/-- A defined run of the erase loop leaves a table on which the loop's bound is defined. -/
theorem loopOverflows_eraseIds {α : Type} (getId : α → UInt64) (k : UInt64) {t : List α}
    (h : loopOverflows t.length = false) :
    loopOverflows (eraseIds getId k (loopCount t.length) t).length = false := by
  have hf : ((t.take (loopCount t.length)).filter fun e => getId e ≠ k).length ≤
      loopCount t.length :=
    (List.length_filter_le _ _).trans (by simp only [List.length_take]; omega)
  rw [eraseIds_eq _ _ _ _ (loopCount_le _), List.length_append, List.length_drop]
  simp only [loopOverflows, loopCount, beq_eq_false_iff_ne, ne_eq] at h hf ⊢
  split_ifs at hf ⊢ <;> omega

/-- A second run of the erase loop, over the table the first left, erases nothing. -/
theorem eraseIds_idempotent {α : Type} (getId : α → UInt64) (k : UInt64) (t : List α) :
    eraseIds getId k (loopCount (eraseIds getId k (loopCount t.length) t).length)
      (eraseIds getId k (loopCount t.length) t) = eraseIds getId k (loopCount t.length) t := by
  let f := (t.take (loopCount t.length)).filter fun e => getId e ≠ k
  have ht : eraseIds getId k (loopCount t.length) t = f ++ t.drop (loopCount t.length) :=
    eraseIds_eq _ _ _ _ (loopCount_le _)
  have hf : f.length ≤ loopCount t.length :=
    (List.length_filter_le _ _).trans (by simp only [List.length_take]; omega)
  have hn : loopCount (f ++ t.drop (loopCount t.length)).length ≤ f.length := by
    rw [List.length_append, List.length_drop]
    exact loopCount_filtered_le rfl hf
  rw [ht, eraseIds_eq _ _ _ _ (hn.trans (by simp)), List.take_append_of_le_length hn]
  -- what the second loop visits was kept by the first
  rw [List.filter_eq_self.2 fun x hx => (List.mem_filter.1 (List.take_subset _ _ hx)).2,
    ← List.take_append_of_le_length hn, List.take_append_drop]

/-- **Cancelling twice is cancelling once**, for either table.  Where the bound of the first
removal's erase loop does not overflow, that of the second does not either, and the second
removal leaves the table as the first did; this holds on the sizes where the loop skips entries
too.  `removePendingInterest` and `removeRegisteredPrefix` are idempotent on the table they erase
from. -/
theorem removePendingInterest_idempotent (s : Node) (k : UInt64) :
    (loopOverflows s.pendingInterestTable.length = false →
      loopOverflows (s.removePendingInterest k).pendingInterestTable.length = false ∧
      ((s.removePendingInterest k).removePendingInterest k).pendingInterestTable =
        (s.removePendingInterest k).pendingInterestTable) ∧
    (loopOverflows s.registeredPrefixTable.length = false →
      loopOverflows (s.removeRegisteredPrefix k).registeredPrefixTable.length = false ∧
      ((s.removeRegisteredPrefix k).removeRegisteredPrefix k).registeredPrefixTable =
        (s.removeRegisteredPrefix k).registeredPrefixTable) :=
  ⟨fun h => ⟨loopOverflows_eraseIds _ _ h, eraseIds_idempotent _ _ _⟩,
    fun h => ⟨loopOverflows_eraseIds _ _ h, eraseIds_idempotent _ _ _⟩⟩

/-- Entries 1 and 2 in the PIT, registration 1 in the RPT: cancelling 1 a second time changes
neither table again. -/
theorem removePendingInterest_idempotent_two_entries :
    let e₁ : PendingInterest := ⟨1, anyInterest, .app none, .app none, 0⟩
    let e₂ : PendingInterest := ⟨2, anyInterest, .app none, .app none, 0⟩
    let s : Node := { Node.init 2 1 0 with
      pendingInterestTable := [e₁, e₂], registeredPrefixTable := [⟨1, ⟨[]⟩, none⟩] }
    loopOverflows s.pendingInterestTable.length = false ∧
      (s.removePendingInterest 1).pendingInterestTable = [e₂] ∧
      ((s.removePendingInterest 1).removePendingInterest 1).pendingInterestTable = [e₂] ∧
      loopOverflows s.registeredPrefixTable.length = false ∧
      (s.removeRegisteredPrefix 1).registeredPrefixTable = [] ∧
      ((s.removeRegisteredPrefix 1).removeRegisteredPrefix 1).registeredPrefixTable = [] := by
  intro e₁ e₂ s
  have h := removePendingInterest_idempotent s 1
  have hp : (s.removePendingInterest 1).pendingInterestTable = [e₂] := by decide
  have hr : (s.removeRegisteredPrefix 1).registeredPrefixTable = [] := by decide
  exact ⟨rfl, hp, ((h.1 rfl).2.trans hp), rfl, hr, ((h.2 rfl).2.trans hr)⟩

/-- `UInt64.ofNat` tells apart the ids below `2^64`. -/
theorem ofNat_inj_of_lt {a b : Nat} (ha : a < 2 ^ 64) (hb : b < 2 ^ 64)
    (h : UInt64.ofNat a = UInt64.ofNat b) : a = b :=
  Nat.le_antisymm ((ofNat_le_ofNat_iff ha hb).1 (h ▸ UInt64.le_refl _))
    ((ofNat_le_ofNat_iff hb ha).1 (h ▸ UInt64.le_refl _))

/-- No entry of the PIT carries the id of an entry that has fired, so cancelling it erases
nothing. -/
theorem Inv.removePendingInterest_of_fired {s : Node} (h : Inv s)
    (hc : s.lastPendingInterestId < 2 ^ 64) {e : PendingInterest}
    (hfired : Event.onData e ∈ s.log ∨ ∃ c, Event.onTimeout e c ∈ s.log) :
    (s.removePendingInterest e.getPendingInterestId).pendingInterestTable =
      s.pendingInterestTable := by
  have hfire : 0 < s.log.countP (·.firesPendingInterest e.pendingInterestId) := by
    rcases hfired with hd | ⟨c, ht⟩
    exacts [List.countP_pos_iff.2 ⟨_, hd, by simp [Event.firesPendingInterest]⟩,
      List.countP_pos_iff.2 ⟨_, ht, by simp [Event.firesPendingInterest]⟩]
  -- a fired id is at or below the counter, and no entry of the PIT carries it
  have hle : e.pendingInterestId ≤ s.lastPendingInterestId :=
    Nat.le_of_not_lt fun hlt => by simp [h.fires_le _ hlt] at hfire
  have hnone := h.fires_once e.pendingInterestId
  rw [Node.removePendingInterest_pendingInterestTable]
  refine eraseIds_of_forall_ne _ _ (fun x hx hxk => ?_) _
  have hxle := h.pit_le x hx
  have hid := ofNat_inj_of_lt (by omega) (by omega) hxk
  have : 0 < s.pendingInterestTable.countP (·.pendingInterestId == e.pendingInterestId) :=
    List.countP_pos_iff.2 ⟨x, hx, by simp [hid]⟩
  omega

/-- A removal that leaves the PIT as it was only records the cancellation. -/
theorem Node.removePendingInterest_eq_record {s : Node} {k : UInt64}
    (h : (s.removePendingInterest k).pendingInterestTable = s.pendingInterestTable) :
    s.removePendingInterest k = s.record (.cancel k s.pendingInterestTable.length) := by
  rw [Node.removePendingInterest_pendingInterestTable] at h
  simp only [Node.removePendingInterest, Node.record, h]

/-- **Cancelling too late changes nothing.**  On a reachable node whose ids fit in 64 bits,
where the erase loop's bound does not overflow, `removePendingInterest` of an entry whose
`onData` or `callTimeout` has been called returns normally and only records the cancellation: the
PIT is left as it was (spec §5: "if the entry has already fired ... it is a no-op"). -/
theorem removePendingInterest_after_firing {codec : Codec} {s : Node} (hs : Reachable codec s)
    (hc : s.lastPendingInterestId < 2 ^ 64)
    (hsz : loopOverflows s.pendingInterestTable.length = false) {e : PendingInterest}
    (hfired : Event.onData e ∈ s.log ∨ ∃ c, Event.onTimeout e c ∈ s.log) (link : Link) :
    s.call codec link (.removePendingInterest e.getPendingInterestId) =
      (s.record (.cancel e.getPendingInterestId s.pendingInterestTable.length), .ok) := by
  simp only [Node.call, Outcome.ofLoop, hsz, Bool.false_eq_true, ite_false,
    Node.removePendingInterest_eq_record ((Inv.reachable hs).removePendingInterest_of_fired hc hfired)]

/-- Two Interests, for `/` and for `/1`; a Data packet for `/` answers the first, and cancelling it
afterwards leaves the second in the PIT. -/
theorem removePendingInterest_after_firing_answered :
    let s₁ := ((Node.init 0 0 0).call emptyCodec okLink
      (.expressInterest anyInterest (some 0) none)).1
    let s₂ := (s₁.call emptyCodec okLink (.expressInterest ⟨⟨[[1]]⟩, -1, -1⟩ none none)).1
    let s := (s₂.onReceiveElement emptyCodec okLink (.data {})).1
    let e := (Node.init 0 0 0).newPendingInterest anyInterest (.app (some 0)) (.app none)
    Reachable emptyCodec s ∧ s.lastPendingInterestId < 2 ^ 64 ∧
      loopOverflows s.pendingInterestTable.length = false ∧ Event.onData e ∈ s.log ∧
      s.pendingInterestTable.length = 1 ∧
      s.call emptyCodec okLink (.removePendingInterest e.getPendingInterestId) =
        (s.record (.cancel e.getPendingInterestId 1), .ok) := by
  intro s₁ s₂ s e
  have hs : Reachable emptyCodec s :=
    (((Reachable.init 0 0 0).call okLink _ (by decide)).call okLink _ (by decide)).step
      (.receive s₂ _ okLink (.data {}) rfl rfl .refl) (by decide)
  have hd : Event.onData e ∈ s.log := by decide
  exact ⟨hs, by decide, rfl, hd, rfl,
    removePendingInterest_after_firing hs (by decide) rfl (.inl hd) okLink⟩

end Ndn
