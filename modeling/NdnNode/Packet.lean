import NdnNode.Name

/-!
# Packets

The node reads few fields of the packets it handles, and builds two packets of its own.

* An `Interest` is read for its name and lifetime (the PIT deadline), and built with a scope for
  self-registration.  Its selectors, nonce and the rest are the codec's business.
* A `Data` packet is read for its name (PIT matching) and, by the ndnd-ID fetcher, for its
  signature's key locator; `registerPrefixHelper` builds one around a `ForwardingEntry`.
* A `Block` is what the transport hands to `onReceiveElement`: a TLV element already decoded,
  or one of a type the node drops.

The TLV codec is outside the node (spec §6), and the node never reads back the bytes it asks the
codec for, so the two encodings it asks for itself are a `Codec` the model is given.  Every
transport-level `wireEncode` / `wireDecode` pair is taken as decoded: a `Block` carries the packet.
-/

set_option autoImplicit false

namespace Ndn

/-- An `Interest`, with the fields the node reads or sets. -/
structure Interest where
  /-- `getName()`. -/
  name : Name
  /-- `getInterestLifetime()`, in milliseconds; negative when the Interest gives none. -/
  interestLifetime : Int := -1
  /-- `getScope()`; negative when the Interest gives none. -/
  scope : Int := -1
  deriving DecidableEq, Repr

/-- Modelled from the spec: `Interest::matchesName` (declared outside `src/`).  The core treats
Interest-to-Data matching as name prefix match (spec §3): the Interest's name is a prefix of the
Data's. -/
def Interest.matchesName (interest : Interest) (name : Name) : Bool :=
  interest.name.nameMatch name

/-- A packet signature: the key locator the ndnd-ID fetcher reads, and the signature value. -/
structure Signature where
  /-- The signer-id bytes the key locator carries. -/
  keyLocator : Blob := []
  /-- The `SignatureValue` block's bytes. -/
  signatureValue : Blob := []
  deriving DecidableEq, Repr

/-- A `Data` packet. -/
structure Data where
  /-- `getName()`. -/
  name : Name := ⟨[]⟩
  /-- `getContent()`. -/
  content : Blob := []
  /-- `getSignature()`. -/
  signature : Signature := {}
  deriving DecidableEq, Repr

/-- `ForwardingFlags`, passed through to the forwarder and never read by the node: the flag word
as the codec encodes it. -/
structure ForwardingFlags where
  /-- The flags, one bit each. -/
  bits : Nat
  deriving DecidableEq, Repr

/-- `ForwardingEntry`: what a self-registration asks of the forwarder. -/
structure ForwardingEntry where
  /-- The action, `"selfreg"` for self-registration. -/
  action : String
  /-- The prefix to register. -/
  prefixName : Name
  /-- The face, `-1` for the face the request arrives on. -/
  faceId : Int
  /-- The forwarding flags. -/
  forwardingFlags : ForwardingFlags
  /-- The freshness period, `-1` to omit it. -/
  freshnessPeriod : Int
  deriving DecidableEq, Repr

/-- The two encodings the node asks of the TLV codec (spec §6) for packets it builds itself. -/
structure Codec where
  /-- `ForwardingEntry::wireEncode`. -/
  encodeForwardingEntry : ForwardingEntry → Blob
  /-- `Data::wireEncode`. -/
  encodeData : Data → Blob

/-- A TLV element from the transport, as `onReceiveElement` dispatches on its type. -/
inductive Block
  /-- Type `Tlv::Interest`, decoded. -/
  | interest (interest : Interest)
  /-- Type `Tlv::Data`, decoded. -/
  | data (data : Data)
  /-- Any other type. -/
  | other (type : Nat)
  deriving DecidableEq, Repr

/-- The bytes of an ASCII string, as the C++ literals `"ndnx"` and `"selfreg"` without their
terminating zero (`sizeof(component0) - 1`). -/
def ascii (s : String) : Blob := s.toList.map Char.toUInt8

/-- `ndndIdFetcherInterest_`: `/%C1.M.S.localhost/%C1.M.SRV/ndnd/KEY` with lifetime 4000 ms, where
`%C1` is the byte `0xC1`. -/
def ndndIdFetcherInterest : Interest where
  name := ⟨[0xC1 :: ascii ".M.S.localhost", 0xC1 :: ascii ".M.SRV", ascii "ndnd", ascii "KEY"]⟩
  interestLifetime := 4000

/-! ## The self-registration Interest

`registerPrefixHelper` wraps a `ForwardingEntry` as the content of a Data packet with an empty
SHA256-with-RSA signature, and sends an Interest named `/ndnx/<ndndId>/selfreg/<that Data>`, with
scope 1. -/

/-- The Data packet whose content is the `ForwardingEntry` for `prefixName`; its signature value
is empty, since nobody verifies it. -/
def selfRegData (codec : Codec) (prefixName : Name) (flags : ForwardingFlags) : Data where
  content := codec.encodeForwardingEntry ⟨"selfreg", prefixName, -1, flags, -1⟩
  signature := { signatureValue := [] }

/-- The self-registration Interest: `ndnx`, the ndnd-ID, `selfreg`, the encoded Data; scope 1. -/
def selfRegInterest (codec : Codec) (ndndId : Blob) (prefixName : Name) (flags : ForwardingFlags) :
    Interest where
  name := ⟨[ascii "ndnx", ndndId, ascii "selfreg", codec.encodeData (selfRegData codec prefixName flags)]⟩
  scope := 1

end Ndn
