import NdnNode.Dispatch

/-!
# The timeout sweep

`checkPitExpire` reads the clock, then walks the PIT from its last index to its first.  An entry
that has timed out is copied, erased, and its `callTimeout` called; the clock is read again after
each call.  `callTimeout` calls the entry's `onTimeout` (for the ndnd-ID probe, the fetcher, which
reports the registration as failed) and swallows whatever it throws.

The application code a timeout calls may call back into the node.  So the sweep is a relation,
`Sweep cb`, over what that code may do (`cb`): `Runs` for any code at all, `RunsKeepingPit` for
code that takes no entry out of the PIT.  The loop's bound is fixed at the start, as
`(int)pendingInterestTable_.size() - 1`, so:

* a callback that shrinks the table can leave the index past its end, where the read of
  `pendingInterestTable_[i]` is undefined (`Sweep.outOfRange`);
* where the cast gives `INT_MIN`, as on a table of `2^31` entries, the `- 1` overflows and the
  sweep is undefined before it reads anything (`CheckPitExpire`);
* on a table of `2^31 + 1` up to `2^32 - 1` entries the `int` is negative and the sweep does
  nothing (`checkPitExpire_of_loopCount_eq_zero`); above that the cast wraps and the sweep visits
  only the first entries.

## What is here

* `Sweep.spec`: for callbacks that only append, what any sweep does — it keeps some of the
  entries, retires the others from the last to the first, each one tested against a clock
  reading at or after its deadline, and leaves what it did not visit and what the callbacks
  appended (`Swept`).  It never reads past the end.
* `checkPitExpire_spec`: on a table below `2^31` entries, every entry is visited, so every entry
  due at the first reading is retired, each timeout called once.
* `checkPitExpire_reverse_order`: the timeouts of one sweep are called last-inserted first.
-/

set_option autoImplicit false

namespace Ndn

open scoped List

/-! ## Calling a timeout -/

/-- Modelled from the spec: the timeout callback of `NdndIdFetcher` (its class is outside `src/`).
It calls the registration's `onRegisterFailed` with its prefix (spec §4.7, step 2c); application
code runs if that callback is not empty. -/
def NdndIdFetcher.onTimeout (f : NdndIdFetcher) (s : Node) : Node × Bool :=
  (s.record (.onRegisterFailed f.registeredPrefixId), f.onRegisterFailed.isSome)

/-- `PendingInterest::callTimeout`: call `onTimeout_` unless it is empty.  It catches everything,
so it never raises. -/
def Node.callTimeout (s : Node) (entry : PendingInterest) : Node × Bool :=
  match entry.onTimeout with
  | .app callback => (s, callback.isSome)
  | .fetcher f => f.onTimeout s

/-- The node's part for a timed-out entry `i`: copy it, erase it, note the clock reading it was
tested against. -/
def Node.expire (s : Node) (i : Nat) (entry : PendingInterest) (nowMilliseconds : Int) : Node :=
  ({ s with pendingInterestTable := s.pendingInterestTable.eraseIdx i } : Node).record
    (.onTimeout entry nowMilliseconds)

/-- `timer_.expires_from_now(100 ms)` at the end of a sweep. -/
def Node.rearm (s : Node) : Node := { s with timerExpiry := s.clock + 100 }

section FieldLemmas

variable (s : Node) (i : Nat) (e : PendingInterest) (now : Int)

@[simp] theorem Node.expire_pendingInterestTable : (s.expire i e now).pendingInterestTable = s.pendingInterestTable.eraseIdx i := rfl
@[simp] theorem Node.expire_registeredPrefixTable : (s.expire i e now).registeredPrefixTable = s.registeredPrefixTable := rfl
@[simp] theorem Node.expire_ndndId : (s.expire i e now).ndndId = s.ndndId := rfl
@[simp] theorem Node.expire_lastPendingInterestId : (s.expire i e now).lastPendingInterestId = s.lastPendingInterestId := rfl
@[simp] theorem Node.expire_lastRegisteredPrefixId : (s.expire i e now).lastRegisteredPrefixId = s.lastRegisteredPrefixId := rfl
@[simp] theorem Node.expire_clock : (s.expire i e now).clock = s.clock := rfl
@[simp] theorem Node.expire_log : (s.expire i e now).log = s.log ++ [.onTimeout e now] := rfl

end FieldLemmas

/-- **The effect of `callTimeout`**, up to the application code it calls: at most a failure
report, which expresses and retires nothing; the PIT, the counter and the clock stay. -/
theorem Node.callTimeout_effect (s : Node) (e : PendingInterest) :
    ∃ evs, (s.callTimeout e).1.log = s.log ++ evs ∧ evs.filterMap Event.expressed? = [] ∧
      evs.filterMap Event.expired? = [] ∧
      (s.callTimeout e).1.pendingInterestTable = s.pendingInterestTable ∧
      (s.callTimeout e).1.lastPendingInterestId = s.lastPendingInterestId ∧
      (s.callTimeout e).1.clock = s.clock ∧ ∀ ev ∈ evs, ∃ r, ev = .onRegisterFailed r := by
  unfold Node.callTimeout
  split
  · exact ⟨[], by simp, rfl, rfl, rfl, rfl, rfl, by simp⟩
  · exact ⟨[.onRegisterFailed _], rfl, rfl, rfl, rfl, rfl, rfl, by simp⟩

/-! ## The loop -/

/-- `checkPitExpire`'s loop with `n` indices left to visit (the next is `n - 1`) and the clock read
as `now`: from `s` it ends in `s'`, with outcome `o`.  What application code a timeout calls does
is up to `cb`, and the node's own work may take time before the clock is read again. -/
inductive Sweep (cb : Node → Node → Prop) : Nat → Int → Node → Node → Outcome → Prop
  /-- `i < 0`: the loop is over. -/
  | finish (now : Int) (s : Node) : Sweep cb 0 now s s .ok
  /-- `pendingInterestTable_[i]` past the end of the table: undefined, and the model stops. -/
  | outOfRange (n : Nat) (now : Int) (s : Node) (h : s.pendingInterestTable.length ≤ n) :
      Sweep cb (n + 1) now s s .undefined
  /-- Entry `i` has not timed out. -/
  | keep (n : Nat) (now : Int) (s s' : Node) (o : Outcome) (entry : PendingInterest)
      (hi : s.pendingInterestTable[n]? = some entry) (hto : entry.isTimedOut now = false)
      (rest : Sweep cb n now s s' o) : Sweep cb (n + 1) now s s' o
  /-- Entry `i` has timed out: erase it, call its timeout, read the clock again. -/
  | expire (n : Nat) (now : Int) (s t s' : Node) (d : Nat) (o : Outcome) (entry : PendingInterest)
      (hi : s.pendingInterestTable[n]? = some entry) (hto : entry.isTimedOut now = true)
      (hcb : AfterCall cb ((s.expire n entry now).callTimeout entry) t)
      (rest : Sweep cb n (t.elapse d).clock (t.elapse d) s' o) : Sweep cb (n + 1) now s s' o

/-- `Node::checkPitExpire`, up to re-arming the timer: read the clock, and sweep the indices
`(int)pendingInterestTable_.size() - 1` down to `0`.  Where that bound overflows, the sweep is
undefined before it reads anything. -/
def CheckPitExpire (cb : Node → Node → Prop) (s s' : Node) (o : Outcome) : Prop :=
  if loopOverflows s.pendingInterestTable.length then s' = s ∧ o = .undefined
  else Sweep cb (loopCount s.pendingInterestTable.length) s.clock s s' o

section CheckPitExpire

variable {cb : Node → Node → Prop} {s s' : Node} {o : Outcome}

theorem CheckPitExpire.of_sweep (hsz : loopOverflows s.pendingInterestTable.length = false)
    (h : Sweep cb (loopCount s.pendingInterestTable.length) s.clock s s' o) :
    CheckPitExpire cb s s' o := by
  rwa [CheckPitExpire, if_neg (by simp [hsz])]

/-- A sweep is undefined at once, or runs its loop from the bound. -/
theorem CheckPitExpire.cases (h : CheckPitExpire cb s s' o) :
    loopOverflows s.pendingInterestTable.length ∧ s' = s ∧ o = .undefined ∨
      loopOverflows s.pendingInterestTable.length = false ∧
        Sweep cb (loopCount s.pendingInterestTable.length) s.clock s s' o := by
  unfold CheckPitExpire at h
  split at h <;> rename_i hsz
  · exact .inl ⟨hsz, h⟩
  · exact .inr ⟨Bool.eq_false_iff.2 hsz, h⟩

/-- Below `2^31` entries the sweep visits every index of the table. -/
theorem checkPitExpire_of_lt (hlen : s.pendingInterestTable.length < 2 ^ 31) :
    CheckPitExpire cb s s' o ↔ Sweep cb s.pendingInterestTable.length s.clock s s' o := by
  rw [CheckPitExpire, if_neg (by simp [loopOverflows_of_lt hlen]), loopCount_of_lt hlen]

/-- When `(int)pendingInterestTable_.size() - 1` is negative, as for a table of `2^31 + 1` up to
`2^32 - 1` entries, the loop does not run and the sweep leaves the node as it was. -/
theorem checkPitExpire_of_loopCount_eq_zero
    (hsz : loopOverflows s.pendingInterestTable.length = false)
    (h0 : loopCount s.pendingInterestTable.length = 0) (h : CheckPitExpire cb s s' o) :
    s' = s ∧ o = .ok := by
  rw [CheckPitExpire, if_neg (by simp [hsz]), h0] at h
  cases h
  exact ⟨rfl, rfl⟩

end CheckPitExpire

/-- Two entries that time out in the same sweep, with no callbacks: the one inserted last has its
timeout called first. -/
theorem checkPitExpire_two_entries :
    let e : PendingInterest := ⟨1, ⟨⟨[]⟩, 0, -1⟩, .app none, .app none, 0⟩
    let f : PendingInterest := ⟨2, ⟨⟨[]⟩, 0, -1⟩, .app none, .app none, 0⟩
    let s : Node := { Node.init 2 0 0 with pendingInterestTable := [e, f] }
    ∀ cb : Node → Node → Prop,
      ∃ s', CheckPitExpire cb s s' .ok ∧ s'.log = [.onTimeout f 0, .onTimeout e 0] := fun _ =>
  ⟨_, .of_sweep rfl
    (.expire 1 0 _ _ _ 0 .ok _ rfl rfl rfl (.expire 0 0 _ _ _ 0 .ok _ rfl rfl rfl (.finish _ _))),
    rfl⟩

/-! ## Sweeps whose callbacks only append -/

/-- The entries of `t` whose bit in `mask` is set, in order: what a sweep keeps. -/
def keptBy (t : List PendingInterest) (mask : List Bool) : List PendingInterest :=
  ((t.zip mask).filter (·.2)).map (·.1)

/-- The entries whose bit is clear: what it retires. -/
def droppedBy (t : List PendingInterest) (mask : List Bool) : List PendingInterest :=
  ((t.zip mask).filter (!·.2)).map (·.1)

theorem keptBy_concat {t : List PendingInterest} {mask : List Bool} (h : t.length = mask.length)
    (e : PendingInterest) (b : Bool) :
    keptBy (t ++ [e]) (mask ++ [b]) = keptBy t mask ++ if b then [e] else [] := by
  cases b <;> simp [keptBy, List.zip_append h]

theorem droppedBy_concat {t : List PendingInterest} {mask : List Bool} (h : t.length = mask.length)
    (e : PendingInterest) (b : Bool) :
    droppedBy (t ++ [e]) (mask ++ [b]) = droppedBy t mask ++ if b then [] else [e] := by
  cases b <;> simp [droppedBy, List.zip_append h]

theorem droppedBy_sublist {t : List PendingInterest} {mask : List Bool}
    (h : t.length = mask.length) : droppedBy t mask <+ t := by
  have := (List.filter_sublist (p := fun x : PendingInterest × Bool => !x.2) (t.zip mask)).map Prod.fst
  rwa [List.map_fst_zip _ _ h.le] at this

theorem Appends.record (s : Node) (ev : Event) (hx : ev.expired? = none)
    (hp : ev.expressed? = none) : Appends s (s.record ev) :=
  ⟨[ev], rfl, by simp [hx], by simp [hp], Int.le_refl _⟩

/-- Whatever a timeout does, when its application code only appends, only appends. -/
theorem AfterCall.callTimeout_appends {cb : Node → Node → Prop}
    (hcb : ∀ t t', cb t t' → Appends t t') {s t : Node} {e : PendingInterest}
    (h : AfterCall cb (s.callTimeout e) t) : Appends s t := by
  have hafter : ∀ {u : Node} {b : Bool}, AfterCall cb (u, b) t → Appends u t := by
    rintro u (_ | _) h
    exacts [h ▸ Appends.refl u, hcb u t h]
  unfold Node.callTimeout at h
  split at h
  · exact hafter h
  · exact (Appends.record s (.onRegisterFailed _) rfl rfl).trans (hafter h)

/-- What a sweep did, from `s` with the PIT `pre ++ mid` and the clock read as `now`, to `s'`,
with `evs` the events it logged. -/
structure Swept (now : Int) (s s' : Node) (pre mid : List PendingInterest) (mask : List Bool)
    (evs : List Event) : Prop where
  log : s'.log = s.log ++ evs
  /-- The kept entries of `pre`, then `mid`, then what the callbacks expressed. -/
  table : s'.pendingInterestTable = keptBy pre mask ++ mid ++ evs.filterMap Event.expressed?
  /-- One timeout per retired entry, the last entry's first. -/
  expired : evs.filterMap Event.expired? = (droppedBy pre mask).reverse
  /-- A kept entry had not timed out at the first reading. -/
  kept_live : ∀ e ∈ keptBy pre mask, now < e.timeoutTimeMilliseconds
  /-- A retired entry was due at the reading it was tested against, which lies between the first
  reading and the clock at the end. -/
  fired_due : ∀ e c, Event.onTimeout e c ∈ evs → e.timeoutTimeMilliseconds ≤ c ∧ now ≤ c ∧ c ≤ s'.clock
  clock : s.clock ≤ s'.clock

/-- The entry at index `n` of a table split after its first `n + 1` entries is the last of them. -/
theorem eq_concat_of_getElem? {t pre mid : List PendingInterest} {n : Nat} {e : PendingInterest}
    (ht : t = pre ++ mid) (hn : pre.length = n + 1) (hi : t[n]? = some e) :
    ∃ pre', pre = pre' ++ [e] ∧ pre'.length = n := by
  obtain ⟨pre', x, rfl⟩ := (List.eq_nil_or_concat pre).resolve_left (by rintro rfl; simp at hn)
  simp only [List.concat_eq_append, List.length_append, List.length_singleton,
    Nat.add_right_cancel_iff] at hn ⊢
  subst ht hn
  rw [List.concat_eq_append, List.append_assoc, List.getElem?_append_right (Nat.le_refl _),
    Nat.sub_self] at hi
  obtain rfl : x = e := by simpa using hi
  exact ⟨pre', rfl, rfl⟩

/-- **What a sweep does**, when the application code it calls only appends.  From a table
`pre ++ mid` with `pre.length` indices to visit, it ends normally, never reading past the end; it
keeps some entries of `pre` and retires the rest, last first, each tested against a clock reading
at or after its deadline; and it leaves `mid`, then what the callbacks appended. -/
theorem Sweep.spec {cb : Node → Node → Prop} (hcb : ∀ t t', cb t t' → Appends t t') {n : Nat}
    {now : Int} {s s' : Node} {o : Outcome} (h : Sweep cb n now s s' o) :
    ∀ pre mid, s.pendingInterestTable = pre ++ mid → pre.length = n → now ≤ s.clock →
      o = .ok ∧ ∃ mask evs, mask.length = n ∧ Swept now s s' pre mid mask evs := by
  induction h with
  | finish now s =>
    intro pre mid hpit hn hnow
    obtain rfl := List.length_eq_zero.1 hn
    exact ⟨rfl, [], [], rfl, {
      log := by simp
      table := by simp [hpit, keptBy]
      expired := by simp [droppedBy]
      kept_live := by simp [keptBy]
      fired_due := by simp
      clock := Int.le_refl _ }⟩
  | outOfRange n now s hlen =>
    intro pre mid hpit hn _
    have := congrArg List.length hpit
    simp only [List.length_append] at this
    omega
  | keep n now s s' o x hi hto _ ih =>
    intro pre mid hpit hlen hnow
    obtain ⟨pre, rfl, hn⟩ := eq_concat_of_getElem? hpit hlen hi
    obtain ⟨rfl, mask, evs, hm, sw⟩ := ih pre (x :: mid) (by simp [hpit]) hn hnow
    have hlive : now < x.timeoutTimeMilliseconds :=
      Int.not_le.1 (by simpa [PendingInterest.isTimedOut] using hto)
    refine ⟨rfl, mask ++ [true], evs, by simp [hm], {
      log := sw.log
      table := by simp [sw.table, keptBy_concat (hn.trans hm.symm)]
      expired := by simp [sw.expired, droppedBy_concat (hn.trans hm.symm)]
      kept_live := fun e he => ?_
      fired_due := sw.fired_due
      clock := sw.clock }⟩
    rw [keptBy_concat (hn.trans hm.symm)] at he
    rcases List.mem_append.1 he with he | he
    · exact sw.kept_live e he
    · obtain rfl := List.mem_singleton.1 he
      exact hlive
  | expire n now s t s' d o x hi hto hcall _ ih =>
    intro pre mid hpit hlen hnow
    obtain ⟨pre, rfl, hn⟩ := eq_concat_of_getElem? hpit hlen hi
    obtain ⟨evs₁, hl₁, hx₁, hp₁, hc₁⟩ :=
      (AfterCall.callTimeout_appends hcb hcall).trans (Appends.elapse t d)
    have herase : (pre ++ [x] ++ mid).eraseIdx n = pre ++ mid := by
      rw [List.append_assoc, List.eraseIdx_append_of_length_le hn.le]; simp [hn]
    rw [Node.expire_pendingInterestTable, hpit, herase] at hp₁
    obtain ⟨rfl, mask, evs₂, hm, sw⟩ := ih pre (mid ++ evs₁.filterMap Event.expressed?)
      (by rw [hp₁, List.append_assoc]) hn (Int.le_refl _)
    have hdue : x.timeoutTimeMilliseconds ≤ now := by
      simpa [PendingInterest.isTimedOut] using hto
    have hclock := sw.clock
    simp only [Node.expire_clock] at hc₁
    refine ⟨rfl, mask ++ [false], .onTimeout x now :: evs₁ ++ evs₂, by simp [hm], {
      log := by rw [sw.log, hl₁]; simp
      table := by simp [sw.table, keptBy_concat (hn.trans hm.symm), Event.expressed?]
      expired := by simp [sw.expired, droppedBy_concat (hn.trans hm.symm), hx₁, Event.expired?]
      kept_live := fun e he => by
        have := sw.kept_live e (by simpa [keptBy_concat (hn.trans hm.symm)] using he)
        omega
      fired_due := fun e c hec => ?_
      clock := by omega }⟩
    rcases List.mem_cons.1 hec with hec | hec
    · cases hec; omega
    rcases List.mem_append.1 hec with hec | hec
    · exact absurd (List.filterMap_eq_nil_iff.1 hx₁ _ hec) (by simp [Event.expired?])
    · have := sw.fired_due e c hec; omega

/-- **The sweep below `2^31` entries.**  When the timeouts' application code takes no entry out of
the PIT, `checkPitExpire` on a table of fewer than `2^31` entries ends normally; it retires every
entry that was due at the first clock reading (a kept entry was not), calling the timeouts of the
retired entries once each, the last entry's first; each retired entry was due at the reading it
was tested against, a reading between the first one and the clock at the end; and the PIT is then
the kept entries in their order, followed by the entries the callbacks expressed, in theirs. -/
theorem checkPitExpire_spec {codec : Codec} {s s' : Node} {o : Outcome}
    (h : CheckPitExpire (RunsKeepingPit codec) s s' o)
    (hlen : s.pendingInterestTable.length < 2 ^ 31) :
    o = .ok ∧ ∃ mask evs, mask.length = s.pendingInterestTable.length ∧
      Swept s.clock s s' s.pendingInterestTable [] mask evs := by
  rw [checkPitExpire_of_lt hlen] at h
  exact Sweep.spec (fun _ _ h => h.appends) h _ [] (by simp) rfl (Int.le_refl _)

/-- A codec that makes no bytes, for the concrete runs of this development, none of which looks at
the bytes. -/
def emptyCodec : Codec := ⟨fun _ => [], fun _ => []⟩

/-- Entries 1 and 2 are due, entry 3 is not: the sweep keeps 3 and retires 2, then 1. -/
theorem checkPitExpire_spec_mixed_table :
    let e : PendingInterest := ⟨1, ⟨⟨[]⟩, 0, -1⟩, .app none, .app none, 0⟩
    let f : PendingInterest := ⟨2, ⟨⟨[]⟩, 0, -1⟩, .app none, .app none, 0⟩
    let g : PendingInterest := ⟨3, ⟨⟨[]⟩, 0, -1⟩, .app none, .app none, 1000⟩
    let s : Node := { Node.init 3 0 0 with pendingInterestTable := [e, f, g] }
    ∃ s', CheckPitExpire (RunsKeepingPit emptyCodec) s s' .ok ∧
      s.pendingInterestTable.length < 2 ^ 31 ∧
      ∃ mask evs, mask.length = s.pendingInterestTable.length ∧
        Swept s.clock s s' s.pendingInterestTable [] mask evs := by
  intro e f g s
  have h : CheckPitExpire (RunsKeepingPit emptyCodec) s _ .ok :=
    .of_sweep rfl (.keep 2 0 s _ .ok g rfl rfl (.expire 1 0 s _ _ 0 .ok f rfl rfl rfl
      (.expire 0 0 _ _ _ 0 .ok e rfl rfl rfl (.finish _ _))))
  exact ⟨_, h, by decide, (checkPitExpire_spec h (by decide)).2⟩

/-- **Timeouts run last-inserted first.**  When the timeouts' application code takes no entry out
of the PIT, the entries one `checkPitExpire` retires, in the order their timeouts are called, are
a sublist of the PIT read from its end. -/
theorem checkPitExpire_reverse_order {codec : Codec} {s s' : Node} {o : Outcome}
    (h : CheckPitExpire (RunsKeepingPit codec) s s' o) :
    ∃ evs, s'.log = s.log ++ evs ∧
      evs.filterMap Event.expired? <+ s.pendingInterestTable.reverse := by
  rcases h.cases with ⟨-, rfl, -⟩ | ⟨-, h⟩
  · exact ⟨[], by simp, by simp⟩
  have hlen := List.length_take_of_le (loopCount_le s.pendingInterestTable.length)
  obtain ⟨-, mask, evs, hm, sw⟩ := Sweep.spec (fun _ _ h => h.appends) h _ _
    (List.take_append_drop _ _).symm hlen (Int.le_refl _)
  refine ⟨evs, sw.log, ?_⟩
  rw [sw.expired]
  exact ((droppedBy_sublist (hlen.trans hm.symm)).trans (List.take_sublist _ _)).reverse

theorem checkPitExpire_reverse_order_mixed_table :
    let e : PendingInterest := ⟨1, ⟨⟨[]⟩, 0, -1⟩, .app none, .app none, 0⟩
    let f : PendingInterest := ⟨2, ⟨⟨[]⟩, 0, -1⟩, .app none, .app none, 0⟩
    let g : PendingInterest := ⟨3, ⟨⟨[]⟩, 0, -1⟩, .app none, .app none, 1000⟩
    let s : Node := { Node.init 3 0 0 with pendingInterestTable := [e, f, g] }
    ∃ s', CheckPitExpire (RunsKeepingPit emptyCodec) s s' .ok ∧ ∃ evs, s'.log = s.log ++ evs ∧
      evs.filterMap Event.expired? <+ s.pendingInterestTable.reverse := by
  intro e f g s
  have h : CheckPitExpire (RunsKeepingPit emptyCodec) s _ .ok :=
    .of_sweep rfl (.keep 2 0 s _ .ok g rfl rfl (.expire 1 0 s _ _ 0 .ok f rfl rfl rfl
      (.expire 0 0 _ _ _ 0 .ok e rfl rfl rfl (.finish _ _))))
  exact ⟨_, h, checkPitExpire_reverse_order h⟩

end Ndn
