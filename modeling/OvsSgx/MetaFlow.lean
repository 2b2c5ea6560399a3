/-
OvsSgx.MetaFlow — flow fields, as trusted/lib/meta-flow.c reads them.

A field's value is the list of the bytes of the `union mf_value` member
that `mf_get_value` writes, in memory order. Byte offsets are those of
`struct flow`; a big-endian member is compared with `htons (...)` by its
host value `be16`.
-/
import OvsSgx.Flow

namespace OvsSgx

abbrev U8 := BitVec 8

/-! ## Members of `struct flow` -/

/-- Bytes `k`, `k + 1`, ..., `k + n - 1` of a flow. -/
def Flow.bytes (f : Flow) (k n : Nat) : List U8 := (List.range n).map fun i => f.byte (k + i)

/-- The host value of the big-endian 16-bit member at byte `k`. -/
def Flow.be16 (f : Flow) (k : Nat) : BitVec 16 := f.byte k ++ f.byte (k + 1)

/-- The host value of the big-endian 32-bit member at byte `k`. -/
def Flow.be32 (f : Flow) (k : Nat) : U32 :=
  f.byte k ++ f.byte (k + 1) ++ f.byte (k + 2) ++ f.byte (k + 3)

def Flow.vlanTci (f : Flow) : BitVec 16 := f.be16 142
def Flow.dlType (f : Flow) : BitVec 16 := f.be16 144
def Flow.tpSrc (f : Flow) : BitVec 16 := f.be16 146
def Flow.tpDst (f : Flow) : BitVec 16 := f.be16 148
def Flow.mplsLse (f : Flow) : U32 := f.be32 136
def Flow.nwProto (f : Flow) : U8 := f.byte 162
def Flow.nwTos (f : Flow) : U8 := f.byte 163

/-- A host value as the two bytes of an `ovs_be16`. -/
def htonsBytes (x : BitVec 16) : List U8 := [(x >>> 8).setWidth 8, x.setWidth 8]

/-- A host value as the four bytes of an `ovs_be32`. -/
def htonlBytes (x : U32) : List U8 :=
  [(x >>> 24).setWidth 8, (x >>> 16).setWidth 8, (x >>> 8).setWidth 8, x.setWidth 8]

/-! ## Fields -/

/-- `enum mf_field_id`; the registers are one constructor. -/
inductive MfFieldId where
  | tunId | tunSrc | tunDst | tunFlags | tunTtl | tunTos | metadata | inPort
  | skbPriority | skbMark | reg (i : Fin 8)
  | ethSrc | ethDst | ethType | vlanTci | dlVlan | vlanVid | dlVlanPcp | vlanPcp
  | mplsLabel | mplsTc | mplsBos
  | ipv4Src | ipv4Dst | ipv6Src | ipv6Dst | ipv6Label
  | ipProto | ipDscp | ipDscpShifted | ipEcn | ipTtl | ipFrag
  | arpOp | arpSpa | arpTpa | arpSha | arpTha
  | tcpSrc | tcpDst | udpSrc | udpDst
  | icmpv4Type | icmpv4Code | icmpv6Type | icmpv6Code
  | ndTarget | ndSll | ndTll
deriving DecidableEq, Repr

/-- `enum mf_prereqs`. -/
inductive MfPrereqs where
  | none | arp | vlanVid | ipv4 | ipv6 | ipAny | mpls | tcp | udp | icmpv4 | icmpv6
  | nd | ndSolicit | ndAdvert
deriving DecidableEq, Repr

/-- `struct mf_field`, with the members that the eviction code reads. -/
structure MfField where
  id : MfFieldId
  nBytes : Nat
  prereqs : MfPrereqs
deriving DecidableEq, Repr

/-- `struct mf_subfield`. -/
structure MfSubfield where
  field : MfField
  ofs : Nat
  nBits : Nat
deriving DecidableEq, Repr

/-- `is_ip_any`. -/
def isIpAny (f : Flow) : Bool := f.dlType == 0x0800#16 || f.dlType == 0x86dd#16

/-- `is_icmpv4`. -/
def isIcmpv4 (f : Flow) : Bool := f.dlType == 0x0800#16 && f.nwProto == 1#8

/-- `is_icmpv6`. -/
def isIcmpv6 (f : Flow) : Bool := f.dlType == 0x86dd#16 && f.nwProto == 58#8

/-- `mf_are_prereqs_ok`. -/
def mfArePrereqsOk (mf : MfField) (f : Flow) : Bool :=
  match mf.prereqs with
  | .none => true
  | .arp => f.dlType == 0x0806#16 || f.dlType == 0x8035#16
  | .ipv4 => f.dlType == 0x0800#16
  | .ipv6 => f.dlType == 0x86dd#16
  | .vlanVid => f.vlanTci &&& 0x1000#16 != 0#16
  | .mpls => f.dlType == 0x8847#16 || f.dlType == 0x8848#16
  | .ipAny => isIpAny f
  | .tcp => isIpAny f && f.nwProto == 6#8
  | .udp => isIpAny f && f.nwProto == 17#8
  | .icmpv4 => isIcmpv4 f
  | .icmpv6 => isIcmpv6 f
  | .nd => isIcmpv6 f && f.tpDst == 0#16 && (f.tpSrc == 135#16 || f.tpSrc == 136#16)
  | .ndSolicit => isIcmpv6 f && f.tpDst == 0#16 && f.tpSrc == 135#16
  | .ndAdvert => isIcmpv6 f && f.tpDst == 0#16 && f.tpSrc == 136#16

/-- `mf_get_value`. -/
def mfGetValue (mf : MfField) (f : Flow) : List U8 :=
  match mf.id with
  | .tunId => f.bytes 0 8
  | .tunSrc => f.bytes 8 4
  | .tunDst => f.bytes 12 4
  | .tunFlags => [f.byte 17, f.byte 16]
  | .tunTtl => [f.byte 19]
  | .tunTos => [f.byte 18]
  | .metadata => f.bytes 24 8
  | .inPort => htonsBytes ((f.u32 32).setWidth 16)
  | .skbPriority => htonlBytes (f.u32 20)
  | .skbMark => htonlBytes (f.u32 33)
  | .reg i => htonlBytes (f.u32 (21 + i.val))
  | .ethSrc => f.bytes 150 6
  | .ethDst => f.bytes 156 6
  | .ethType => f.bytes 144 2
  | .vlanTci => f.bytes 142 2
  | .dlVlan => htonsBytes (f.vlanTci &&& 0x0fff#16)
  | .vlanVid => htonsBytes (f.vlanTci &&& 0x1fff#16)
  | .dlVlanPcp | .vlanPcp => [((f.vlanTci &&& 0xe000#16) >>> 13).setWidth 8]
  | .mplsLabel => htonlBytes ((f.mplsLse &&& 0xfffff000#32) >>> 12)
  | .mplsTc => [((f.mplsLse &&& 0xe00#32) >>> 9).setWidth 8]
  | .mplsBos => [if f.mplsLse &&& 0x100#32 = 0#32 then 0#8 else 1#8]
  | .ipv4Src | .arpSpa => f.bytes 116 4
  | .ipv4Dst | .arpTpa => f.bytes 120 4
  | .ipv6Src => f.bytes 32 16
  | .ipv6Dst => f.bytes 48 16
  | .ipv6Label => f.bytes 124 4
  | .ipProto => [f.nwProto]
  | .ipDscp => [f.nwTos &&& 0xfc#8]
  | .ipDscpShifted => [f.nwTos >>> 2]
  | .ipEcn => [f.nwTos &&& 0x03#8]
  | .ipTtl => [f.byte 176]
  | .ipFrag => [f.byte 177]
  | .arpOp => htonsBytes (f.nwProto.setWidth 16)
  | .arpSha | .ndSll => f.bytes 164 6
  | .arpTha | .ndTll => f.bytes 170 6
  | .tcpSrc | .udpSrc => f.bytes 146 2
  | .tcpDst | .udpDst => f.bytes 148 2
  | .icmpv4Type | .icmpv6Type => [f.tpSrc.setWidth 8]
  | .icmpv4Code | .icmpv6Code => [f.tpDst.setWidth 8]
  | .ndTarget => f.bytes 64 16

/-! ## Zeroing bits -/

/-- The second half of `bitwise_zero`: whole bytes downwards from index `i`,
then the low bits of the next one. `fuel` bounds the number of whole bytes. -/
def zeroDown : Nat → List U8 → Nat → Nat → List U8
  | 0, dst, _, _ => dst
  | fuel + 1, dst, i, nBits =>
    if 8 ≤ nBits then zeroDown fuel (dst.set i 0#8) (i - 1) (nBits - 8)
    else if nBits = 0 then dst
    else dst.modify i fun b => b &&& ~~~((1#8 <<< nBits) - 1#8)

/-- `bitwise_zero`. -/
def bitwiseZero (dst : List U8) (dstLen dstOfs nBits : Nat) : List U8 :=
  if nBits = 0 then dst
  else
    let i := dstLen - (dstOfs / 8 + 1)
    let o := dstOfs % 8
    if o = 0 then zeroDown (nBits + 1) dst i nBits
    else
      let chunk := min nBits (8 - o)
      let dst := dst.modify i fun b => b &&& ~~~(((1#8 <<< chunk) - 1#8) <<< o)
      if nBits - chunk = 0 then dst else zeroDown (nBits + 1) dst (i - 1) (nBits - chunk)

end OvsSgx
