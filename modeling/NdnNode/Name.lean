import Mathlib.Data.List.Basic
import Mathlib.Algebra.Group.Nat.Basic

/-!
# Names

An NDN name is a sequence of components, each an opaque byte string (`ndn_NameComponent`, whose
`value` is a blob).  The node asks one question of names: whether one is a prefix of another.
That is `ndn_Name_match`, documented as "the N components of this name are the same as the first
N components of the given name".  It decides which PIT entry a Data packet satisfies, through
`Interest::matchesName`; in the spec, though not in the code (see `NdnNode.Dispatch`), it also
decides which registered prefix an Interest is for.

* `Name.nameMatch` is `ndn_Name_match`, read off that documentation: the first `N` components of
  the other name, compared with all `N` of this one.
* `Name.nameMatch_iff` turns it into `List.IsPrefix`, and the spec's prefix laws
  (`nameMatch_refl`, `nameMatch_trans`) follow from the list library.
-/

set_option autoImplicit false

namespace Ndn

/-- The bytes of a buffer (`Blob`, `Buffer`): a component's value, a Data packet's content, the
ndnd-ID. -/
abbrev Blob := List UInt8

/-- A name component: the bytes of its value. -/
abbrev Component := Blob

/-- `ndn_Name`: its components, in order. -/
structure Name where
  /-- The components, first to last. -/
  components : List Component
  deriving DecidableEq, Repr

namespace Name

/-- The number of components, `nComponents`. -/
def size (n : Name) : Nat := n.components.length

/-- `Name::append`: the name with one more component at the end. -/
def append (n : Name) (c : Component) : Name := ⟨n.components ++ [c]⟩

/-- `ndn_Name_match`: whether the `N` components of `self` are the first `N` components of
`name`.  Always true of the empty name. -/
def nameMatch (self name : Name) : Bool :=
  decide (name.components.take self.size = self.components)

theorem nameMatch_iff {self name : Name} :
    self.nameMatch name = true ↔ self.components <+: name.components := by
  rw [nameMatch, decide_eq_true_iff, List.prefix_iff_eq_take, eq_comm]
  rfl

theorem size_le_of_nameMatch {self name : Name} (h : self.nameMatch name = true) :
    self.size ≤ name.size :=
  (nameMatch_iff.1 h).length_le

/-- Every name matches itself. -/
theorem nameMatch_refl (n : Name) : n.nameMatch n = true :=
  nameMatch_iff.2 (List.prefix_refl _)

/-- **The prefix law.**  A prefix of a prefix of `c` is a prefix of `c`. -/
theorem nameMatch_trans {a b c : Name} (hab : a.nameMatch b = true) (hbc : b.nameMatch c = true) :
    a.nameMatch c = true :=
  nameMatch_iff.2 ((nameMatch_iff.1 hab).trans (nameMatch_iff.1 hbc))

theorem nameMatch_append (n : Name) (c : Component) : n.nameMatch (n.append c) = true :=
  nameMatch_iff.2 (List.prefix_append _ _)

end Name

end Ndn
