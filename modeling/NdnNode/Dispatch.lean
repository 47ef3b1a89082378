import NdnNode.Api

/-!
# Dispatching what the transport delivers

`onReceiveElement` sends an Interest to a registered prefix's handler and a Data packet to the
PIT entry it satisfies.

* For Data, `getEntryIndexForExpressedInterest` finds the first entry, in insertion order, whose
  Interest matches the Data's name.  The node copies what it needs, erases the entry, and only
  then calls `onData` (`Node.callOnData`): exactly that entry leaves the PIT
  (`onReceiveElement_data_first_match`).  For the ndnd-ID probe, `onData` is the fetcher
  (`NdndIdFetcher.onData`), which stores the ndnd-ID and registers the prefix.  Unlike
  `callTimeout`, the call is not guarded, so an empty `onData` throws.
* For an Interest, `getEntryForRegisteredPrefix` is meant to find the longest registered prefix of
  the Interest's name (spec §4.4, `longestMatch`).  It never reads the name: it returns the first
  of the longest prefixes in the whole table (`getEntryForRegisteredPrefix_eq_find`).  So an
  Interest reaches a handler whose prefix need not be a prefix of its name
  (`onReceiveElement_unmatched_prefix`), and agrees with the spec exactly when the table's longest
  prefix happens to match (`getEntryForRegisteredPrefix_eq_longestMatch`).
-/

set_option autoImplicit false

namespace Ndn

open scoped List

/-! ## The registered prefix for an Interest -/

/-- One turn of `getEntryForRegisteredPrefix`'s loop: take entry `e` if nothing is taken yet or
its prefix is longer than the one taken. -/
def longerPrefix (longestPrefix : Option RegisteredPrefix) (e : RegisteredPrefix) :
    Option RegisteredPrefix :=
  match longestPrefix with
  | none => some e
  | some l => if l.prefixName.size < e.prefixName.size then some e else some l

/-- `Node::getEntryForRegisteredPrefix`.  The loop compares prefix sizes only; `name` is
unused. -/
def getEntryForRegisteredPrefix (t : List RegisteredPrefix) (_name : Name) :
    Option RegisteredPrefix :=
  t.foldl longerPrefix none

/-- An entry at least as long as every entry of `t`. -/
def IsLongestIn (t : List RegisteredPrefix) (e : RegisteredPrefix) : Bool :=
  t.all fun e' => e'.prefixName.size ≤ e.prefixName.size

/-- The spec's `longestMatch` (§4.4): among the entries whose prefix is a prefix of `name`, the
one with the most components, the earliest inserted on a tie; none if no prefix matches. -/
def longestMatch (t : List RegisteredPrefix) (name : Name) : Option RegisteredPrefix :=
  let m := t.filter (·.prefixName.nameMatch name)
  m.find? (IsLongestIn m)

theorem isLongestIn_iff {t : List RegisteredPrefix} {e : RegisteredPrefix} :
    IsLongestIn t e = true ↔ ∀ e' ∈ t, e'.prefixName.size ≤ e.prefixName.size := by
  simp [IsLongestIn]

theorem exists_isLongestIn : ∀ {t : List RegisteredPrefix}, t ≠ [] → ∃ e ∈ t, IsLongestIn t e = true
  | [a], _ => ⟨a, by simp [IsLongestIn]⟩
  | a :: b :: t, _ => by
    obtain ⟨e, he, hl⟩ := exists_isLongestIn (t := b :: t) (List.cons_ne_nil _ _)
    rw [isLongestIn_iff] at hl
    by_cases hae : a.prefixName.size ≤ e.prefixName.size
    · exact ⟨e, List.mem_cons_of_mem _ he, isLongestIn_iff.2 (by simpa [hae] using hl)⟩
    · refine ⟨a, List.mem_cons_self _ _, isLongestIn_iff.2 fun e' he' => ?_⟩
      rcases List.mem_cons.1 he' with rfl | he'
      · exact le_refl _
      · have := hl e' he'; omega

theorem find?_congr_of_mem {α : Type} {p q : α → Bool} :
    ∀ {t : List α}, (∀ e ∈ t, p e = q e) → t.find? p = t.find? q
  | [], _ => rfl
  | a :: t, h => by
    simp only [List.find?_cons, h a (List.mem_cons_self _ _),
      find?_congr_of_mem fun e he => h e (List.mem_cons_of_mem _ he)]

/-- The loop of `getEntryForRegisteredPrefix`, run over a whole table, keeps the first of its
longest entries. -/
theorem foldl_longerPrefix_eq_find (t : List RegisteredPrefix) :
    t.foldl longerPrefix none = t.find? (IsLongestIn t) := by
  induction t using List.reverseRecOn with
  | nil => rfl
  | append_singleton t x ih =>
    have hx : ∀ e, IsLongestIn (t ++ [x]) e =
        (IsLongestIn t e && decide (x.prefixName.size ≤ e.prefixName.size)) := by
      simp [IsLongestIn]
    rw [List.foldl_append, ih, List.find?_append]
    cases hf : t.find? (IsLongestIn t) with
    | none =>
      obtain rfl : t = [] := by
        by_contra hne
        obtain ⟨e, he, hl⟩ := exists_isLongestIn hne
        exact List.find?_eq_none.1 hf e he hl
      simp [longerPrefix, IsLongestIn]
    | some l =>
      have hl := isLongestIn_iff.1 (List.find?_some hf)
      simp only [List.foldl_cons, List.foldl_nil, longerPrefix]
      split_ifs with hlx
      · have hnone : t.find? (IsLongestIn (t ++ [x])) = none := by
          refine List.find?_eq_none.2 fun e he => ?_
          have := hl e he
          simp [hx]; omega
        rw [hnone]
        simp only [Option.none_or, List.find?_cons, hx, List.find?_nil]
        simp only [isLongestIn_iff.2 fun e he => (hl e he).trans hlx.le, le_refl, decide_True,
          Bool.and_self]
      · rw [find?_congr_of_mem (q := IsLongestIn t), hf]
        · rfl
        intro e he
        rw [hx]
        cases h : IsLongestIn t e
        · rfl
        · have := isLongestIn_iff.1 h l (List.mem_of_find?_eq_some hf)
          simp; omega

/-- **What the code computes.**  `getEntryForRegisteredPrefix` returns the first entry whose
prefix is as long as any in the table, whatever the name. -/
theorem getEntryForRegisteredPrefix_eq_find (t : List RegisteredPrefix) (name : Name) :
    getEntryForRegisteredPrefix t name = t.find? (IsLongestIn t) :=
  foldl_longerPrefix_eq_find t

/-- The handler an Interest is given is an entry of the RPT. -/
theorem getEntryForRegisteredPrefix_mem {t : List RegisteredPrefix} {name : Name}
    {e : RegisteredPrefix} (h : getEntryForRegisteredPrefix t name = some e) : e ∈ t :=
  List.mem_of_find?_eq_some ((foldl_longerPrefix_eq_find t).symm.trans h)

/-- **Where the bug does not bite.**  When the entry the code picks does match the name, it is
the spec's longest match. -/
theorem getEntryForRegisteredPrefix_eq_longestMatch {t : List RegisteredPrefix} {name : Name}
    {e : RegisteredPrefix} (h : getEntryForRegisteredPrefix t name = some e)
    (hm : e.prefixName.nameMatch name = true) : longestMatch t name = some e := by
  rw [getEntryForRegisteredPrefix, foldl_longerPrefix_eq_find, List.find?_eq_some] at h
  obtain ⟨hl, as, bs, rfl, has⟩ := h
  rw [isLongestIn_iff] at hl
  have hlf : IsLongestIn ((as ++ e :: bs).filter (·.prefixName.nameMatch name)) e = true :=
    isLongestIn_iff.2 fun e' he' => hl e' (List.mem_filter.1 he').1
  rw [longestMatch, List.find?_filter, List.find?_eq_some]
  refine ⟨decide_eq_true ⟨hm, hlf⟩, as, bs, rfl, fun a ha => ?_⟩
  have hlt : a.prefixName.size < e.prefixName.size := by
    by_contra hge
    have : IsLongestIn (as ++ e :: bs) a = true :=
      isLongestIn_iff.2 fun e' he' => by have := hl e' he'; omega
    have h2 := has a ha
    rw [this] at h2
    exact absurd h2 (by decide)
  have hnot : IsLongestIn ((as ++ e :: bs).filter (·.prefixName.nameMatch name)) a ≠ true :=
    fun h' => absurd (isLongestIn_iff.1 h' e (List.mem_filter.2 ⟨by simp, hm⟩)) (by omega)
  simp only [Bool.not_eq_true', decide_eq_false_iff_not, not_and]
  exact fun _ => hnot

/-- Prefixes `/a` and `/a/b`, and an Interest for `/a/b/c`: the code picks `/a/b`, which matches. -/
theorem getEntryForRegisteredPrefix_eq_longestMatch_nested :
    let ab : RegisteredPrefix := ⟨2, ⟨[ascii "a", ascii "b"]⟩, none⟩
    let t : List RegisteredPrefix := [⟨1, ⟨[ascii "a"]⟩, none⟩, ab]
    let name : Name := ⟨[ascii "a", ascii "b", ascii "c"]⟩
    getEntryForRegisteredPrefix t name = some ab ∧ ab.prefixName.nameMatch name = true ∧
      longestMatch t name = some ab :=
  have h : getEntryForRegisteredPrefix _ _ = _ := by decide
  have hm : Name.nameMatch _ _ = true := by decide
  ⟨h, hm, getEntryForRegisteredPrefix_eq_longestMatch h hm⟩

/-! ## The PIT entry for a Data packet -/

/-- `Node::getEntryIndexForExpressedInterest`: the first entry whose Interest matches `name`,
with its position — the iterator the code returns. -/
def getEntryIndexForExpressedInterest (name : Name) :
    List PendingInterest → Option (Nat × PendingInterest)
  | [] => none
  | e :: t =>
    if e.interest.matchesName name then some (0, e)
    else (getEntryIndexForExpressedInterest name t).map fun p => (p.1 + 1, p.2)

theorem getEntryIndexForExpressedInterest_eq_none {name : Name} :
    ∀ {t : List PendingInterest}, (∀ e ∈ t, e.interest.matchesName name = false) →
      getEntryIndexForExpressedInterest name t = none
  | [], _ => rfl
  | a :: t, h => by
    rw [getEntryIndexForExpressedInterest, if_neg (by simp [h a (List.mem_cons_self _ _)]),
      getEntryIndexForExpressedInterest_eq_none fun e he => h e (List.mem_cons_of_mem _ he)]
    rfl

/-- The search stops at the first match: past entries that do not match, at its position. -/
theorem getEntryIndexForExpressedInterest_append {name : Name} {e : PendingInterest}
    (post : List PendingInterest) (he : e.interest.matchesName name = true) :
    ∀ {pre : List PendingInterest}, (∀ x ∈ pre, x.interest.matchesName name = false) →
      getEntryIndexForExpressedInterest name (pre ++ e :: post) = some (pre.length, e)
  | [], _ => by simp [getEntryIndexForExpressedInterest, he]
  | a :: pre, h => by
    rw [List.cons_append, getEntryIndexForExpressedInterest,
      if_neg (by simp [h a (List.mem_cons_self _ _)]),
      getEntryIndexForExpressedInterest_append post he fun x hx => h x (List.mem_cons_of_mem _ hx)]
    rfl

theorem getEntryIndexForExpressedInterest_getElem? {name : Name} :
    ∀ {t : List PendingInterest} {i : Nat} {e : PendingInterest},
      getEntryIndexForExpressedInterest name t = some (i, e) → t[i]? = some e := by
  intro t
  induction t with
  | nil => intro _ _ h; cases h
  | cons a t ih =>
    intro i e h
    rw [getEntryIndexForExpressedInterest] at h
    split at h
    · cases h; simp
    · obtain ⟨⟨j, e'⟩, hj, he⟩ := Option.map_eq_some'.1 h
      cases he
      simpa using ih hj

/-! ## `onReceiveElement` -/

/-- Modelled from the spec: the Data callback of `NdndIdFetcher` (its class is outside `src/`).
It stores the signer-id the reply's key locator carries as the ndnd-ID, then makes the
`registerPrefixHelper` call bound into it (spec §4.7, step 2b). -/
def NdndIdFetcher.onData (f : NdndIdFetcher) (s : Node) (codec : Codec) (link : Link)
    (data : Data) : Node × Except NodeError Unit :=
  ({ s with ndndId := data.signature.keyLocator } : Node).registerPrefixHelper codec link
    f.registeredPrefixId f.prefixName f.onInterest f.onRegisterFailed f.flags

/-- The Data branch once the entry is found: erase it, then call its `onData`. -/
def Node.satisfy (s : Node) (i : Nat) (entry : PendingInterest) : Node :=
  ({ s with pendingInterestTable := s.pendingInterestTable.eraseIdx i } : Node).record
    (.onData entry)

/-- `onData(interest, data)`, once the entry is out of the PIT: an application callback runs
next, an empty one throws `bad_function_call`, and the ndnd-ID fetcher runs at once. -/
def Node.callOnData (s : Node) (entry : PendingInterest) (codec : Codec) (link : Link)
    (data : Data) : Node × Bool × Outcome :=
  match entry.onData with
  | .app none => (s, false, .raised .badFunctionCall)
  | .app (some _) => (s, true, .ok)
  | .fetcher f =>
    let r := f.onData s codec link data
    (r.1, false, .ofExcept r.2)

/-- **What `onData` can change**: the ndnd-ID, the RPT and the log.  The fetcher's registration
leaves the PIT, the counters and the clock alone, and an application callback changes nothing
before it runs. -/
theorem Node.callOnData_eq (s : Node) (entry : PendingInterest) (codec : Codec) (link : Link)
    (data : Data) :
    ∃ t : Node, (s.callOnData entry codec link data).1 = { s with
      ndndId := t.ndndId, registeredPrefixTable := t.registeredPrefixTable, log := t.log } := by
  refine ⟨(s.callOnData entry codec link data).1, ?_⟩
  unfold Node.callOnData
  split
  · rfl
  · rfl
  · simp only [NdndIdFetcher.onData, Node.registerPrefixHelper]
    split <;> rfl

section CallOnDataFields

variable (s : Node) (entry : PendingInterest) (codec : Codec) (link : Link) (data : Data)

@[simp] theorem Node.callOnData_pendingInterestTable :
    (s.callOnData entry codec link data).1.pendingInterestTable = s.pendingInterestTable := by
  obtain ⟨t, h⟩ := s.callOnData_eq entry codec link data
  rw [h]

@[simp] theorem Node.callOnData_lastPendingInterestId :
    (s.callOnData entry codec link data).1.lastPendingInterestId = s.lastPendingInterestId := by
  obtain ⟨t, h⟩ := s.callOnData_eq entry codec link data
  rw [h]

@[simp] theorem Node.callOnData_lastRegisteredPrefixId :
    (s.callOnData entry codec link data).1.lastRegisteredPrefixId = s.lastRegisteredPrefixId := by
  obtain ⟨t, h⟩ := s.callOnData_eq entry codec link data
  rw [h]

@[simp] theorem Node.callOnData_clock :
    (s.callOnData entry codec link data).1.clock = s.clock := by
  obtain ⟨t, h⟩ := s.callOnData_eq entry codec link data
  rw [h]

@[simp] theorem Node.callOnData_timerExpiry :
    (s.callOnData entry codec link data).1.timerExpiry = s.timerExpiry := by
  obtain ⟨t, h⟩ := s.callOnData_eq entry codec link data
  rw [h]

end CallOnDataFields

/-- **What `onData` logs.**  Nothing for an application callback; for the fetcher, the
registration it makes, of its own registration id, and its send.  The RPT gains only what is
logged as registered. -/
theorem Node.callOnData_effect (s : Node) (entry : PendingInterest) (codec : Codec) (link : Link)
    (data : Data) :
    ∃ evs, (s.callOnData entry codec link data).1.log = s.log ++ evs ∧
      (∀ x ∈ (s.callOnData entry codec link data).1.registeredPrefixTable,
        x ∈ s.registeredPrefixTable ∨ Event.register x ∈ evs) ∧
      ∀ ev ∈ evs,
        (∃ x, ev = .register x ∧ entry.onData.fetcherId? = some x.registeredPrefixId) ∨
          ∃ i, ev = .send i := by
  unfold Node.callOnData
  split
  · exact ⟨[], by simp, fun x hx => .inl hx, by simp⟩
  · exact ⟨[], by simp, fun x hx => .inl hx, by simp⟩
  · rename_i f hf
    simp only [NdndIdFetcher.onData, Node.registerPrefixHelper]
    let rp : RegisteredPrefix := ⟨f.registeredPrefixId, f.prefixName, f.onInterest⟩
    have hrpt : ∀ x ∈ s.registeredPrefixTable ++ [rp],
        x ∈ s.registeredPrefixTable ∨ x = rp := fun x hx => by simpa using hx
    have hrp : entry.onData.fetcherId? = some rp.registeredPrefixId := by simp [hf, rp]
    split
    · exact ⟨[.register rp, .send (selfRegInterest codec data.signature.keyLocator f.prefixName
        f.flags)], by simp [rp], fun x hx => (hrpt x hx).imp_right fun h => by simp [h],
        by simp [hrp]⟩
    · exact ⟨[.register rp], by simp [rp],
        fun x hx => (hrpt x hx).imp_right fun h => by simp [h], by simp [hrp]⟩

/-- `Node::onReceiveElement`, up to the application callback it ends by calling: the state then,
whether application code runs next, and how the node's own part ended. -/
def Node.onReceiveElement (s : Node) (codec : Codec) (link : Link) :
    Block → Node × Bool × Outcome
  | .interest interest =>
    match getEntryForRegisteredPrefix s.registeredPrefixTable interest.name with
    | none => (s, false, .ok)
    | some entry =>
      match entry.onInterest with
      | none => (s.record (.onInterest entry), false, .raised .badFunctionCall)
      | some _ => (s.record (.onInterest entry), true, .ok)
  | .data data =>
    match getEntryIndexForExpressedInterest data.name s.pendingInterestTable with
    | none => (s, false, .ok)
    | some (i, entry) => (s.satisfy i entry).callOnData entry codec link data
  | .other _ => (s, false, .ok)

/-- **What a reception can do**: nothing; log a call of the `onInterest` of an RPT entry, for an
Interest; or, for Data whose first match in the PIT is entry `i`, satisfy that entry and make its
`onData` call. -/
theorem Node.onReceiveElement_cases (s : Node) (codec : Codec) (link : Link) (b : Block) :
    (s.onReceiveElement codec link b).1 = s ∨
    (∃ x ∈ s.registeredPrefixTable, (∀ d, b ≠ .data d) ∧
      (s.onReceiveElement codec link b).1 = s.record (.onInterest x)) ∨
    ∃ d i e, b = .data d ∧
      getEntryIndexForExpressedInterest d.name s.pendingInterestTable = some (i, e) ∧
      (s.onReceiveElement codec link b).1 = ((s.satisfy i e).callOnData e codec link d).1 := by
  cases b with
  | interest i =>
    simp only [Node.onReceiveElement]
    split
    · exact .inl rfl
    · rename_i x hx
      exact .inr (.inl ⟨x, getEntryForRegisteredPrefix_mem hx, fun _ => Block.noConfusion,
        by split <;> rfl⟩)
  | data d =>
    simp only [Node.onReceiveElement]
    split
    · exact .inl rfl
    · rename_i i e hfind
      exact .inr (.inr ⟨d, i, e, rfl, hfind, rfl⟩)
  | other _ => exact .inl rfl

/-- **The effect of a reception**, up to its callback.  It appends events to the log: none
expresses an entry or retires one by timeout, and the id counter and the clock stay.  An entry
leaves the PIT only with its `onData` call logged. -/
theorem Node.onReceiveElement_effect (s : Node) (codec : Codec) (link : Link) (b : Block) :
    ∃ evs, (s.onReceiveElement codec link b).1.log = s.log ++ evs ∧
      evs.filterMap Event.expressed? = [] ∧ evs.filterMap Event.expired? = [] ∧
      (s.onReceiveElement codec link b).1.lastPendingInterestId = s.lastPendingInterestId ∧
      (s.onReceiveElement codec link b).1.clock = s.clock ∧
      ∀ x ∈ s.pendingInterestTable,
        x ∈ (s.onReceiveElement codec link b).1.pendingInterestTable ∨
          Event.onData x ∈ evs := by
  rcases s.onReceiveElement_cases codec link b with
    h | ⟨x, -, -, h⟩ | ⟨d, i, e, rfl, hfind, h⟩ <;> rw [h]
  · exact ⟨[], by simp, rfl, rfl, rfl, rfl, fun _ hx => .inl hx⟩
  · exact ⟨[.onInterest x], rfl, rfl, rfl, rfl, rfl, fun _ hx => .inl hx⟩
  · obtain ⟨evs, hl, -, hev⟩ := (s.satisfy i e).callOnData_effect e codec link d
    have hquiet : ∀ ev ∈ evs, ev.expressed? = none ∧ ev.expired? = none := fun ev hev' => by
      rcases hev ev hev' with ⟨x, rfl, -⟩ | ⟨_, rfl⟩ <;> exact ⟨rfl, rfl⟩
    refine ⟨.onData e :: evs, by rw [hl]; simp [Node.satisfy], ?_, ?_, by simp [Node.satisfy],
      by simp [Node.satisfy], fun x hx => ?_⟩
    · simpa [Event.expressed?] using fun ev hev' => (hquiet ev hev').1
    · simpa [Event.expired?] using fun ev hev' => (hquiet ev hev').2
    -- the satisfied entry leaves the PIT, and only it
    rcases mem_eraseIdx_or_eq (getEntryIndexForExpressedInterest_getElem? hfind) hx with h | rfl
    exacts [.inl (by simpa [Node.satisfy] using h), .inr (List.mem_cons_self _ _)]

/-- A one-entry RPT whose prefix `/a` is not a prefix of `/b`, yet an Interest for `/b` is handed
to `/a`'s handler, where the spec's `longestMatch` finds nothing. -/
theorem onReceiveElement_unmatched_prefix (codec : Codec) (link : Link) :
    let entry : RegisteredPrefix := ⟨1, ⟨[ascii "a"]⟩, some 0⟩
    let s : Node := { Node.init 0 1 0 with registeredPrefixTable := [entry] }
    entry.prefixName.nameMatch ⟨[ascii "b"]⟩ = false ∧
      longestMatch s.registeredPrefixTable ⟨[ascii "b"]⟩ = none ∧
      s.onReceiveElement codec link (.interest ⟨⟨[ascii "b"]⟩, -1, -1⟩) =
        (s.record (.onInterest entry), true, .ok) :=
  ⟨by decide, by decide, rfl⟩

/-- **A Data packet retires its first match.**  When no entry's Interest matches the Data's name,
the node is left as it was and nothing runs.  Otherwise the first matching entry, and no other,
leaves the PIT, the others keeping their order; its `onData` call is logged, and only then made,
once, with the Data.  The PIT is the same when `onReceiveElement` returns. -/
theorem onReceiveElement_data_first_match (s : Node) (codec : Codec) (link : Link) (data : Data) :
    ((∀ e ∈ s.pendingInterestTable, e.interest.matchesName data.name = false) →
      s.onReceiveElement codec link (.data data) = (s, false, .ok)) ∧
    ∀ pre e post, s.pendingInterestTable = pre ++ e :: post →
      (∀ x ∈ pre, x.interest.matchesName data.name = false) →
      e.interest.matchesName data.name = true →
      s.onReceiveElement codec link (.data data) =
          (({ s with pendingInterestTable := pre ++ post } : Node).record (.onData e)).callOnData
            e codec link data ∧
        (s.onReceiveElement codec link (.data data)).1.pendingInterestTable = pre ++ post := by
  refine ⟨fun h => by simp [Node.onReceiveElement, getEntryIndexForExpressedInterest_eq_none h],
    fun pre e post hpit hpre he => ?_⟩
  have hsat : s.satisfy pre.length e =
      ({ s with pendingInterestTable := pre ++ post } : Node).record (.onData e) := by
    simp [Node.satisfy, hpit, List.eraseIdx_append_of_length_le]
  have h : s.onReceiveElement codec link (.data data) =
      (({ s with pendingInterestTable := pre ++ post } : Node).record (.onData e)).callOnData
        e codec link data := by
    simp only [Node.onReceiveElement, hpit, getEntryIndexForExpressedInterest_append post he hpre,
      hsat]
  exact ⟨h, by rw [h]; simp⟩

/-- Entry `a` does not match `/y`, `b` and `c` both do: `b` alone leaves the PIT. -/
theorem onReceiveElement_data_first_match_middle :
    let a : PendingInterest := ⟨1, ⟨⟨[ascii "x"]⟩, -1, -1⟩, .app none, .app none, 0⟩
    let b : PendingInterest := ⟨2, ⟨⟨[]⟩, -1, -1⟩, .app (some 0), .app none, 0⟩
    let c : PendingInterest := ⟨3, ⟨⟨[]⟩, -1, -1⟩, .app none, .app none, 0⟩
    let s : Node := { Node.init 3 0 0 with pendingInterestTable := [a, b, c] }
    let data : Data := { name := ⟨[ascii "y"]⟩ }
    s.pendingInterestTable = [a] ++ b :: [c] ∧
      (∀ x ∈ [a], x.interest.matchesName data.name = false) ∧
      b.interest.matchesName data.name = true ∧
      (s.onReceiveElement ⟨fun _ => [], fun _ => []⟩ ⟨true, true⟩ (.data data)).1.pendingInterestTable =
        [a, c] := by
  intro a b c s data
  have hpre : ∀ x ∈ [a], x.interest.matchesName data.name = false := by decide
  have hb : b.interest.matchesName data.name = true := by decide
  exact ⟨rfl, hpre, hb, ((onReceiveElement_data_first_match s ⟨fun _ => [], fun _ => []⟩
    ⟨true, true⟩ data).2 [a] b [c] rfl hpre hb).2⟩

end Ndn
