import Il2Cpp.Data.LittleEndian
import Il2Cpp.Data.Overlay

/-!
# Socket addresses

The addresses that the system reports become managed `SocketAddress` objects, and these are decoded
again by `Bind`, `Connect` and `SendTo`.  The layout of a `sockaddr` is that of Linux.

* `Sockaddr` : the addresses.
* `getEndPointInfo`, `receiveFrom` : the managed address of an endpoint, and of a sender.
* `unpackSocketAddress` : what the system is given for a managed address.
* `socketAddress_roundTrips_iff` : which addresses come back, and in the same bytes each time.
-/

namespace Il2Cpp

namespace SocketAddress

open LittleEndian

def END_POINT_MAX_PATH_LEN : ℕ := 255

/-- `sizeof(sun_path)` -/
def SUN_PATH_LEN : ℕ := 108

/-! ### Families -/

/-- `os::AddressFamily` -/
inductive AddressFamily
  | kAddressFamilyError
  | kAddressFamilyUnspecified
  | kAddressFamilyUnix
  | kAddressFamilyInterNetwork
  | kAddressFamilyIpx
  | kAddressFamilySna
  | kAddressFamilyDecNet
  | kAddressFamilyAppleTalk
  | kAddressFamilyInterNetworkV6
  | kAddressFamilyIrda
deriving DecidableEq

def convertDefineToAddressFamily : ℕ → AddressFamily
  | 0 => .kAddressFamilyUnspecified
  | 1 => .kAddressFamilyUnix
  | 2 => .kAddressFamilyInterNetwork
  | 4 => .kAddressFamilyIpx
  | 5 => .kAddressFamilyAppleTalk
  | 10 => .kAddressFamilyInterNetworkV6
  | 12 => .kAddressFamilyDecNet
  | 22 => .kAddressFamilySna
  | 23 => .kAddressFamilyIrda
  | _ => .kAddressFamilyError

/-- The number of a family in managed code. -/
def convertFromOsAddressFamily : AddressFamily → ℤ
  | .kAddressFamilyUnspecified => 0
  | .kAddressFamilyUnix => 1
  | .kAddressFamilyInterNetwork => 2
  | .kAddressFamilyIpx => 6
  | .kAddressFamilySna => 11
  | .kAddressFamilyDecNet => 12
  | .kAddressFamilyAppleTalk => 16
  | .kAddressFamilyInterNetworkV6 => 23
  | .kAddressFamilyIrda => 26
  | .kAddressFamilyError => -1

def convertAddressFamily : ℕ → AddressFamily
  | 0 => .kAddressFamilyUnspecified
  | 1 => .kAddressFamilyUnix
  | 2 => .kAddressFamilyInterNetwork
  | 6 => .kAddressFamilyIpx
  | 11 => .kAddressFamilySna
  | 12 => .kAddressFamilyDecNet
  | 16 => .kAddressFamilyAppleTalk
  | 23 => .kAddressFamilyInterNetworkV6
  | 26 => .kAddressFamilyIrda
  | _ => .kAddressFamilyError

/-! ### Addresses of the system -/

/-- A path of a Unix-domain address, `[]` where it has no name.  It may fill `sun_path`. -/
structure UnixPath where
  bytes : List UInt8
  length_le : bytes.length ≤ SUN_PATH_LEN
  no_nul : ∀ b ∈ bytes, b ≠ 0
deriving DecidableEq

/-- A `sockaddr`, with its numbers as the host has them. -/
inductive Sockaddr
  | inet (port : UInt16) (address : UInt32)
  | inet6 (port : UInt16) (flowinfo : UInt32) (address : Vector UInt8 16) (scope : UInt32)
  | unix (path : UnixPath)
deriving DecidableEq

/-- `sockaddr_in`, `sockaddr_in6` and `sockaddr_un` in memory. -/
def Sockaddr.bytes : Sockaddr → List UInt8
  | inet port address =>
    encode 2 2 ++ encodeBig 2 port.toNat ++ encodeBig 4 address.toNat ++ List.replicate 8 0
  | inet6 port flowinfo address scope =>
    encode 2 10 ++ encodeBig 2 port.toNat ++ encodeBig 4 flowinfo.toNat ++ address.toList ++
      encode 4 scope.toNat
  | unix path => encode 2 1 ++ path.bytes ++ List.replicate (SUN_PATH_LEN - path.bytes.length) 0

/-- What the system reports: it ends a path with 0, and an address without a name is its family. -/
def Sockaddr.reported : Sockaddr → List UInt8
  | unix path => encode 2 1 ++ if path.bytes = [] then [] else path.bytes ++ [0]
  | sa => sa.bytes

/-! ### From the system to managed code -/

/-- `EndPointInfo`, with the bytes of its union. -/
structure EndPointInfo where
  family : AddressFamily
  raw : ℕ → UInt8

/-- `socketaddr_to_endpoint_info`, of the memory at `address`. -/
def socketaddrToEndpointInfo (address : ℕ → UInt8) (addressLen : ℕ) (info : EndPointInfo) :
    Bool × EndPointInfo :=
  let family := convertDefineToAddressFamily (decode (cellsAt address 0 2))
  match family with
  | .kAddressFamilyInterNetwork =>
    -- the union's `inet` has two integers of 32 bits
    (true, ⟨family, overlay 0 (encode 4 (decodeBig (cellsAt address 2 2)) ++
      encode 4 (decodeBig (cellsAt address 4 4))) info.raw⟩)
  | .kAddressFamilyUnix =>
    (true, ⟨family, overlay 0 (cellsAt address 2 addressLen) info.raw⟩)
  | .kAddressFamilyInterNetworkV6 =>
    -- neither the first two bytes nor those of `sin6_flowinfo`
    (true, ⟨family, overlay 24 (encode 4 (decode (cellsAt address 24 4)))
      (overlay 8 (cellsAt address 8 16)
        (overlay 2 (encodeBig 2 (decodeBig (cellsAt address 2 2))) info.raw))⟩)
  | _ => (false, ⟨family, info.raw⟩)

/-- `strlen`, `none` where the array has no end of the string. -/
def strlen (path : ℕ → UInt8) : Option ℕ :=
  (List.range END_POINT_MAX_PATH_LEN).find? fun i => path i = 0

/-- `end_point_info_to_socket_address`, the bytes of the object. -/
def endPointInfoToSocketAddress (info : EndPointInfo) : Option (List UInt8) :=
  let family := encode 2 (convertFromOsAddressFamily info.family).toNat
  match info.family with
  | .kAddressFamilyInterNetwork =>
    some (family ++ encodeBig 2 (decode (cellsAt info.raw 0 4)) ++
      encodeBig 4 (decode (cellsAt info.raw 4 4)))
  | .kAddressFamilyUnix =>
    (strlen info.raw).map fun pathLen => family ++ cellsAt info.raw 0 pathLen ++ [0]
  | .kAddressFamilyInterNetworkV6 => some (family ++ cellsAt info.raw 2 26)
  | _ => none

/-- An address that the system has written into a buffer becomes a managed one.  `beyond` is the
memory in which the buffer lies. -/
def convert (buffer : List UInt8) (info : EndPointInfo) (beyond : ℕ → UInt8) (sa : Sockaddr) :
    Option (List UInt8) :=
  let address := overlay 0 (sa.reported.take buffer.length) (overlay 0 buffer beyond)
  let (supported, info) := socketaddrToEndpointInfo address sa.reported.length info
  if supported then endPointInfoToSocketAddress info else none

/-- `LocalEndPoint_icall` and `RemoteEndPoint_icall` -/
def getEndPointInfo (beyond : ℕ → UInt8) (sa : Sockaddr) : Option (List UInt8) :=
  convert (List.replicate (END_POINT_MAX_PATH_LEN + 3) 0) ⟨.kAddressFamilyUnspecified, fun _ => 0⟩
    beyond sa

/-! ### From managed code to the system -/

inductive Failure
  | systemException
  | kWSAeafnosupport
deriving DecidableEq

/-- `sockaddr_from_path`, of the string in an array. -/
def sockaddrFromPath (path : List UInt8) : Option Sockaddr :=
  let bytes := path.takeWhile (· ≠ 0)
  if h : bytes.length < SUN_PATH_LEN then
    some (.unix ⟨bytes, h.le, fun b hb => by simpa using List.mem_takeWhile_imp hb⟩)
  else none

/-- `UnpackIPv6AddressFromBuffer`, and `sockaddr_from_address` of the parts. -/
def unpackIPv6AddressFromBuffer (buffer : List UInt8) : Except Failure Sockaddr :=
  if h : buffer.length < 28 then .error .systemException
  else
    .ok (.inet6 (.ofNat (decodeBig ((buffer.drop 2).take 2))) 0
      (.ofFn fun i => buffer[i.1 + 8]) (.ofNat (decode ((buffer.drop 24).take 4))))

/-- What `bind`, `connect` and `sendto` are given for a managed address, `none` for `NULL`. -/
def unpackSocketAddress (buffer : List UInt8) : Except Failure (Option Sockaddr) :=
  if buffer.length < 2 then .error .systemException
  else
    match convertAddressFamily (decode (buffer.take 2)) with
    | .kAddressFamilyInterNetwork =>
      if buffer.length < 8 then .error .systemException
      else .ok (some (.inet (.ofNat (decodeBig ((buffer.drop 2).take 2)))
        (.ofNat (decodeBig ((buffer.drop 4).take 4)))))
    | .kAddressFamilyUnix =>
      if buffer.length - 2 ≥ END_POINT_MAX_PATH_LEN then .error .systemException
      else .ok (sockaddrFromPath (buffer.drop 2))
    | .kAddressFamilyInterNetworkV6 => (unpackIPv6AddressFromBuffer buffer).map some
    | _ => .error .kWSAeafnosupport

def bindIcall (buffer : List UInt8) : Except Failure (Option Sockaddr) := unpackSocketAddress buffer

def connectIcall (buffer : List UInt8) : Except Failure (Option Sockaddr) :=
  unpackSocketAddress buffer

def sendToIcall (buffer : List UInt8) : Except Failure (Option Sockaddr) :=
  unpackSocketAddress buffer

/-- `ReceiveFrom_icall`, called with a managed address: it becomes the buffer, and `stack` is what
is in `info`, of which only the family is set. -/
def receiveFrom (request : List UInt8) (stack beyond : ℕ → UInt8) (sender : Sockaddr) :
    Option (List UInt8) :=
  match unpackSocketAddress request with
  | .ok (some sa) => convert sa.bytes ⟨.kAddressFamilyError, stack⟩ beyond sender
  | _ => none

/-! ### What is promised -/

/-- Where an address is reported. -/
inductive Source
  | localEndPoint
  | remoteEndPoint
  | sender (request : List UInt8)

/-- The system reports the address there: not where it is given no buffer, and not for a sender
without a name. -/
def Source.Reports : Source → Sockaddr → Prop
  | sender request, sa =>
    (∃ buffer, unpackSocketAddress request = .ok (some buffer)) ∧ sa.reported ≠ encode 2 1
  | _, _ => True

def Source.socketAddress (stack beyond : ℕ → UInt8) (sa : Sockaddr) : Source → Option (List UInt8)
  | localEndPoint | remoteEndPoint => getEndPointInfo beyond sa
  | sender request => receiveFrom request stack beyond sa

/-- The address without its flow information, which managed addresses do not have. -/
def Sockaddr.withoutFlow : Sockaddr → Sockaddr
  | inet6 port _ address scope => inet6 port 0 address scope
  | sa => sa

/-- The bytes of the managed address. -/
def Sockaddr.managed : Sockaddr → List UInt8
  | inet port address => encode 2 2 ++ encodeBig 2 port.toNat ++ encodeBig 4 address.toNat
  | inet6 port _ address scope =>
    encode 2 23 ++ (encodeBig 2 port.toNat ++ List.replicate 4 0 ++ address.toList ++
      encode 4 scope.toNat)
  | unix path => encode 2 1 ++ path.bytes ++ [0]

/-- The bytes of the managed address depend on nothing but the address, and they are decoded to the
address that was reported. -/
structure RoundTrips (source : Source) (sa : Sockaddr) : Prop where
  determined : ∀ stack beyond, source.socketAddress stack beyond sa = some sa.managed
  bind : bindIcall sa.managed = .ok (some sa.withoutFlow)
  connect : connectIcall sa.managed = .ok (some sa.withoutFlow)
  sendTo : sendToIcall sa.managed = .ok (some sa.withoutFlow)

/-! ### Converting -/

variable {buffer : List UInt8} {info : EndPointInfo} {beyond : ℕ → UInt8} {sa : Sockaddr}
  {port : UInt16} {address flowinfo scope : UInt32} {path : UnixPath}

/-- `sa_family` of what is reported. -/
def Sockaddr.family : Sockaddr → ℕ
  | inet .. => 2
  | inet6 .. => 10
  | unix _ => 1

theorem Sockaddr.exists_reported (sa : Sockaddr) :
    ∃ rest, sa.reported = encode 2 sa.family ++ rest := by
  cases sa with
  | inet port address =>
    exact ⟨encodeBig 2 port.toNat ++ (encodeBig 4 address.toNat ++ List.replicate 8 0),
      (List.append_assoc _ _ _).trans (List.append_assoc _ _ _)⟩
  | inet6 port flowinfo address scope =>
    exact ⟨encodeBig 2 port.toNat ++ (encodeBig 4 flowinfo.toNat ++
      (address.toList ++ encode 4 scope.toNat)), by
        simp only [reported, bytes, family, List.append_assoc]⟩
  | unix => exact ⟨_, rfl⟩

theorem family_read (sa : Sockaddr) (beyond : ℕ → UInt8) (hsize : 2 ≤ buffer.length) :
    decode (cellsAt (overlay 0 (sa.reported.take buffer.length) (overlay 0 buffer beyond)) 0 2) =
      sa.family := by
  obtain ⟨rest, hrest⟩ := sa.exists_reported
  have htake : sa.reported.take buffer.length =
      encode 2 sa.family ++ rest.take (buffer.length - 2) := by
    rw [hrest, List.take_append, length_encode, List.take_of_length_le (by rwa [length_encode])]
  rw [htake, cellsAt_overlay_left (length_encode _ _), decode_encode_of_lt]
  cases sa <;> simp [Sockaddr.family]

@[simp] theorem decodeBig_encodeBig_port (port : UInt16) :
    decodeBig (encodeBig 2 port.toNat) = port.toNat :=
  decodeBig_encodeBig_of_lt port.toNat_lt

@[simp] theorem decodeBig_encodeBig_address (address : UInt32) :
    decodeBig (encodeBig 4 address.toNat) = address.toNat :=
  decodeBig_encodeBig_of_lt address.toNat_lt

@[simp] theorem decode_encode_uint32 (x : UInt32) : decode (encode 4 x.toNat) = x.toNat :=
  decode_encode_of_lt x.toNat_lt

theorem decode_encode_port (port : UInt16) : decode (encode 4 port.toNat) = port.toNat :=
  decode_encode_of_lt (Nat.lt_of_lt_of_le port.toNat_lt (by decide))

theorem convert_inet (hsize : 16 ≤ buffer.length) :
    convert buffer info beyond (.inet port address) =
      some (encode 2 2 ++ encodeBig 2 port.toNat ++ encodeBig 4 address.toNat) := by
  have hfamily := family_read (.inet port address) beyond
    (Nat.le_trans (by decide : 2 ≤ 16) hsize)
  have htake : (Sockaddr.inet port address).reported.take buffer.length = encode 2 2 ++
      encodeBig 2 port.toNat ++ (encodeBig 4 address.toNat ++ List.replicate 8 0) := by
    rw [← List.append_assoc]
    exact List.take_of_length_le (by simpa [Sockaddr.reported, Sockaddr.bytes] using hsize)
  have hport (mem : ℕ → UInt8) : cellsAt (overlay 0 (encode 2 2 ++ encodeBig 2 port.toNat ++
      (encodeBig 4 address.toNat ++ List.replicate 8 0)) mem) 2 2 = encodeBig 2 port.toNat :=
    cellsAt_overlay_append rfl (length_encodeBig _ _)
  have haddress (mem : ℕ → UInt8) : cellsAt (overlay 0 (encode 2 2 ++ encodeBig 2 port.toNat ++
      (encodeBig 4 address.toNat ++ List.replicate 8 0)) mem) 4 4 =
      encodeBig 4 address.toNat := by
    rw [← List.append_assoc]
    exact cellsAt_overlay_append (by simp) (length_encodeBig _ _)
  rw [htake] at hfamily
  simp only [convert, htake, socketaddrToEndpointInfo, hfamily, hport, haddress, Sockaddr.family,
    convertDefineToAddressFamily, if_true, decodeBig_encodeBig_port, decodeBig_encodeBig_address,
    endPointInfoToSocketAddress, cellsAt_overlay_left (length_encode 4 _), decode_encode_port]
  rw [cellsAt_overlay_right (by rw [length_encode]) (length_encode 4 _), decode_encode_uint32]
  rfl

/-- The cells that are written for an IPv6 address lie around those of `sin6_flowinfo`. -/
theorem cellsAt_inet6 {raw : ℕ → UInt8} {p a s : List UInt8} (hp : p.length = 2)
    (ha : a.length = 16) (hs : s.length = 4) :
    cellsAt (overlay 24 s (overlay 8 a (overlay 2 p raw))) 2 26 =
      p ++ cellsAt raw 4 4 ++ a ++ s := by
  rw [show 26 = 2 + 4 + 16 + 4 from rfl, cellsAt_add, cellsAt_add, cellsAt_add, cellsAt_overlay hs,
    cellsAt_overlay_of_outside (Or.inl (by decide)),
    cellsAt_overlay_of_outside (Or.inl (by decide)),
    cellsAt_overlay hp, cellsAt_overlay_of_outside (Or.inl (by decide)),
    cellsAt_overlay_of_outside (Or.inl (by decide)),
    cellsAt_overlay_of_outside (Or.inr (Nat.add_le_add_left hp.le 2)),
    cellsAt_overlay_of_outside (Or.inl (by decide)), cellsAt_overlay ha]

theorem convert_inet6 (hsize : 28 ≤ buffer.length) {a : Vector UInt8 16} :
    convert buffer info beyond (.inet6 port flowinfo a scope) =
      some (encode 2 23 ++ (encodeBig 2 port.toNat ++ cellsAt info.raw 4 4 ++ a.toList ++
        encode 4 scope.toNat)) := by
  have hfamily := family_read (.inet6 port flowinfo a scope) beyond
    (Nat.le_trans (by decide : 2 ≤ 28) hsize)
  have htake : (Sockaddr.inet6 port flowinfo a scope).reported.take buffer.length =
      encode 2 10 ++ encodeBig 2 port.toNat ++
        (encodeBig 4 flowinfo.toNat ++ a.toList ++ encode 4 scope.toNat) := by
    rw [← List.append_assoc, ← List.append_assoc]
    exact List.take_of_length_le (by simpa [Sockaddr.reported, Sockaddr.bytes] using hsize)
  have hport (mem : ℕ → UInt8) : cellsAt (overlay 0 (encode 2 10 ++ encodeBig 2 port.toNat ++
      (encodeBig 4 flowinfo.toNat ++ a.toList ++ encode 4 scope.toNat)) mem) 2 2 =
      encodeBig 2 port.toNat :=
    cellsAt_overlay_append rfl (length_encodeBig _ _)
  have haddress (mem : ℕ → UInt8) : cellsAt (overlay 0 (encode 2 10 ++ encodeBig 2 port.toNat ++
      (encodeBig 4 flowinfo.toNat ++ a.toList ++ encode 4 scope.toNat)) mem) 8 16 = a.toList := by
    rw [← List.append_assoc, ← List.append_assoc]
    exact cellsAt_overlay_append (by simp) (by simp)
  have hscope (mem : ℕ → UInt8) : cellsAt (overlay 0 (encode 2 10 ++ encodeBig 2 port.toNat ++
      (encodeBig 4 flowinfo.toNat ++ a.toList ++ encode 4 scope.toNat)) mem) 24 4 =
      encode 4 scope.toNat := by
    rw [← List.append_assoc]
    exact cellsAt_overlay_right (by simp) (length_encode _ _)
  rw [htake] at hfamily
  simp only [convert, htake, socketaddrToEndpointInfo, hfamily, hport, haddress, hscope,
    Sockaddr.family, convertDefineToAddressFamily, if_true, decodeBig_encodeBig_port,
    decode_encode_uint32, endPointInfoToSocketAddress]
  rw [cellsAt_inet6 (length_encodeBig _ _) (by simp) (length_encode _ _)]
  rfl

theorem convert_inet6_flow (hsize : 2 ≤ buffer.length) {a : Vector UInt8 16} :
    ∃ bytes, convert buffer info beyond (.inet6 port flowinfo a scope) = some bytes ∧
      bytes[4]? = some (info.raw 4) := by
  have hfamily := family_read (.inet6 port flowinfo a scope) beyond hsize
  simp only [convert, socketaddrToEndpointInfo, hfamily, Sockaddr.family,
    convertDefineToAddressFamily, if_true, endPointInfoToSocketAddress]
  refine ⟨_, rfl, ?_⟩
  rw [cellsAt_inet6 (length_encodeBig _ _) length_cellsAt (length_encode _ _)]
  rfl

theorem strlen_eq {raw : ℕ → UInt8} {n : ℕ} (h : ∀ i < n, raw i ≠ 0) (hend : raw n = 0)
    (hlt : n < END_POINT_MAX_PATH_LEN) : strlen raw = some n :=
  List.find?_range_eq_some.2 ⟨by simpa using hend, List.mem_range.2 hlt, fun i hi => by
    simpa using h i hi⟩

theorem convert_unix (hsize : 2 ≤ buffer.length)
    (hlength : path.bytes.length < (Sockaddr.unix path).reported.length)
    (hpath : ∀ (i : ℕ) (hi : i < path.bytes.length),
      overlay 0 ((Sockaddr.unix path).reported.take buffer.length) (overlay 0 buffer beyond)
        (2 + i) = path.bytes[i])
    (hend : overlay 0 ((Sockaddr.unix path).reported.take buffer.length)
      (overlay 0 buffer beyond) (2 + path.bytes.length) = 0) :
    convert buffer info beyond (.unix path) = some (encode 2 1 ++ path.bytes ++ [0]) := by
  have hfamily := family_read (.unix path) beyond hsize
  have hlt : path.bytes.length < END_POINT_MAX_PATH_LEN :=
    Nat.lt_of_le_of_lt path.length_le (by decide)
  simp only [convert, socketaddrToEndpointInfo, hfamily, Sockaddr.family,
    convertDefineToAddressFamily, if_true, endPointInfoToSocketAddress]
  generalize overlay 0 ((Sockaddr.unix path).reported.take buffer.length)
    (overlay 0 buffer beyond) = mem at hpath hend ⊢
  generalize (Sockaddr.unix path).reported.length = addressLen at hlength ⊢
  have hcopied (i : ℕ) (hi : i < path.bytes.length) :
      overlay 0 (cellsAt mem 2 addressLen) info.raw i = path.bytes[i] := by
    rw [overlay_cellsAt (Nat.lt_trans hi hlength), hpath i hi]
  have hstrlen : strlen (overlay 0 (cellsAt mem 2 addressLen) info.raw) =
      some path.bytes.length := by
    refine strlen_eq (fun i hi => ?_) ?_ hlt
    · rw [hcopied i hi]
      exact path.no_nul _ (List.getElem_mem hi)
    · rw [overlay_cellsAt hlength, hend]
  have hcells : cellsAt (overlay 0 (cellsAt mem 2 addressLen) info.raw) 0 path.bytes.length =
      path.bytes :=
    cellsAt_eq rfl fun i hi => by rw [Nat.zero_add, hcopied i hi]
  rw [hstrlen, Option.map_some, hcells]
  rfl

theorem reported_unix (hne : path.bytes ≠ []) :
    (Sockaddr.unix path).reported = encode 2 1 ++ (path.bytes ++ [0]) := by
  rw [Sockaddr.reported, if_neg hne]

theorem length_reported_unix (hne : path.bytes ≠ []) :
    (Sockaddr.unix path).reported.length = path.bytes.length + 3 := by
  simp only [reported_unix hne, List.length_append, length_encode, List.length_singleton]
  omega

theorem overlay_reported_unix (hne : path.bytes ≠ []) {mem : ℕ → UInt8} {i : ℕ}
    (hi : i < (path.bytes ++ [0]).length) (hlt : 2 + i < buffer.length) :
    overlay 0 ((Sockaddr.unix path).reported.take buffer.length) mem (2 + i) =
      (path.bytes ++ [0])[i] := by
  have hlength : 2 + i < ((Sockaddr.unix path).reported.take buffer.length).length := by
    rw [List.length_take, length_reported_unix hne]
    rw [List.length_append, List.length_singleton] at hi
    omega
  rw [← Nat.zero_add (2 + i), overlay_add hlength, List.getElem_take]
  simp only [reported_unix hne]
  rw [List.getElem_append_right (by rw [length_encode]; omega)]
  simp only [length_encode, Nat.add_sub_cancel_left]

theorem convert_unix_of_size (hsize : path.bytes.length + 3 ≤ buffer.length)
    (hne : path.bytes ≠ []) :
    convert buffer info beyond (.unix path) = some (encode 2 1 ++ path.bytes ++ [0]) := by
  have hlength := length_reported_unix hne
  refine convert_unix (by omega) (by omega) (fun i hi => ?_) ?_
  · rw [overlay_reported_unix hne (by rw [List.length_append]; omega) (by omega),
      List.getElem_append_left hi]
  · rw [overlay_reported_unix hne (by simp) (by omega), List.getElem_concat_length rfl]

theorem convert_unix_unnamed (hnil : path.bytes = []) :
    convert (List.replicate (END_POINT_MAX_PATH_LEN + 3) 0) info beyond (.unix path) =
      some (encode 2 1 ++ path.bytes ++ [0]) := by
  have hreported : (Sockaddr.unix path).reported = encode 2 1 := by
    rw [Sockaddr.reported, if_pos hnil, List.append_nil]
  refine convert_unix (by simp) (by simp [hreported, hnil]) (fun i hi => ?_) ?_
  · simp [hnil] at hi
  · have hcell : overlay 0 (List.replicate (END_POINT_MAX_PATH_LEN + 3) (0 : UInt8)) beyond
        (0 + 2) = _ := overlay_add (by simp)
    rw [hreported, List.take_of_length_le (by simp), hnil, overlay_of_ge (by simp)]
    exact hcell.trans (List.getElem_replicate _)

/-! ### Decoding -/

theorem unpackSocketAddress_inet :
    unpackSocketAddress (encode 2 2 ++ encodeBig 2 port.toNat ++ encodeBig 4 address.toNat) =
      .ok (some (.inet port address)) := by
  have hlength :
      (encode 2 2 ++ encodeBig 2 port.toNat ++ encodeBig 4 address.toNat).length = 8 := by simp
  have hport : ((encode 2 2 ++ encodeBig 2 port.toNat ++ encodeBig 4 address.toNat).drop 2).take 2 =
      encodeBig 2 port.toNat := by
    rw [List.append_assoc, List.drop_left' (length_encode _ _), List.take_left' (by simp)]
  have haddress : ((encode 2 2 ++ encodeBig 2 port.toNat ++ encodeBig 4 address.toNat).drop 4).take
      4 = encodeBig 4 address.toNat := by
    rw [List.drop_left' (by simp), List.take_of_length_le (by simp)]
  have hfamily : (encode 2 2 ++ encodeBig 2 port.toNat ++ encodeBig 4 address.toNat).take 2 =
      encode 2 2 := by
    rw [List.append_assoc, List.take_left' (length_encode _ _)]
  rw [unpackSocketAddress, hlength, hport, haddress, hfamily, decodeBig_encodeBig_port,
    decodeBig_encodeBig_address]
  simp [decode_encode, convertAddressFamily]

theorem unpackIPv6AddressFromBuffer_eq {flow : List UInt8} (hflow : flow.length = 4)
    (a : Vector UInt8 16) :
    unpackIPv6AddressFromBuffer (encode 2 23 ++ (encodeBig 2 port.toNat ++ flow ++ a.toList ++
      encode 4 scope.toNat)) = .ok (.inet6 port 0 a scope) := by
  have hlength : (encode 2 23 ++ (encodeBig 2 port.toNat ++ flow ++ a.toList ++
      encode 4 scope.toNat)).length = 28 := by simp [hflow]
  have hport : ((encode 2 23 ++ (encodeBig 2 port.toNat ++ flow ++ a.toList ++
      encode 4 scope.toNat)).drop 2).take 2 = encodeBig 2 port.toNat := by
    rw [List.drop_left' (length_encode _ _), List.append_assoc, List.append_assoc,
      List.take_left' (length_encodeBig _ _)]
  have hscope : ((encode 2 23 ++ (encodeBig 2 port.toNat ++ flow ++ a.toList ++
      encode 4 scope.toNat)).drop 24).take 4 = encode 4 scope.toNat := by
    rw [← List.append_assoc, List.drop_left' (by simp [hflow]), List.take_of_length_le (by simp)]
  rw [unpackIPv6AddressFromBuffer, dif_neg (by rw [hlength]; decide), hport, hscope,
    decodeBig_encodeBig_port, decode_encode_uint32]
  simp only [UInt16.ofNat_toNat, UInt32.ofNat_toNat]
  congr
  have hdrop : (encode 2 23 ++ (encodeBig 2 port.toNat ++ flow ++ a.toList ++
      encode 4 scope.toNat)).drop 8 = a.toList ++ encode 4 scope.toNat := by
    rw [List.append_assoc (encodeBig 2 port.toNat ++ flow), ← List.append_assoc,
      List.drop_left' (by simp [hflow])]
  refine Vector.ext fun i hi => ?_
  have hbyte : (encode 2 23 ++ (encodeBig 2 port.toNat ++ flow ++ a.toList ++
      encode 4 scope.toNat))[i + 8]? = some a[i] := by
    rw [Nat.add_comm, ← List.getElem?_drop, hdrop, List.getElem?_append_left (by simpa using hi)]
    simp [hi]
  rw [Vector.getElem_ofFn]
  exact (List.getElem?_eq_some_iff.1 hbyte).2

theorem unpackSocketAddress_inet6 {flow : List UInt8} (hflow : flow.length = 4)
    (a : Vector UInt8 16) :
    unpackSocketAddress (encode 2 23 ++ (encodeBig 2 port.toNat ++ flow ++ a.toList ++
      encode 4 scope.toNat)) = .ok (some (.inet6 port 0 a scope)) := by
  rw [unpackSocketAddress, List.take_left' (length_encode _ _),
    unpackIPv6AddressFromBuffer_eq hflow,
    if_neg (by simp only [List.length_append, length_encode]; omega)]
  simp [decode_encode, convertAddressFamily, Except.map]

theorem sockaddrFromPath_eq (path : UnixPath) : sockaddrFromPath (path.bytes ++ [0]) =
    if path.bytes.length < SUN_PATH_LEN then some (.unix path) else none := by
  have hbytes : (path.bytes ++ [0]).takeWhile (· ≠ 0) = path.bytes := by
    rw [List.takeWhile_append_of_pos fun b hb => by simpa using path.no_nul b hb]
    simp
  rw [sockaddrFromPath]
  simp only [hbytes]
  split_ifs <;> rfl

theorem unpackSocketAddress_unix (path : UnixPath) :
    unpackSocketAddress (encode 2 1 ++ path.bytes ++ [0]) =
      .ok (if path.bytes.length < SUN_PATH_LEN then some (.unix path) else none) := by
  have hle := path.length_le
  have hlength : (encode 2 1 ++ (path.bytes ++ [0])).length = path.bytes.length + 3 := by
    simp
    omega
  rw [List.append_assoc, unpackSocketAddress, List.take_left' (length_encode _ _),
    List.drop_left' (length_encode _ _), sockaddrFromPath_eq, hlength, if_neg (by omega)]
  simp only [decode_encode, convertAddressFamily]
  refine if_neg ?_
  rw [END_POINT_MAX_PATH_LEN]
  rw [SUN_PATH_LEN] at hle
  omega

/-! ### Round trips -/

theorem Sockaddr.length_bytes (sa : Sockaddr) :
    16 ≤ sa.bytes.length ∧ sa.bytes.length ≤ SUN_PATH_LEN + 2 := by
  cases sa with
  | inet => simp [bytes, SUN_PATH_LEN]
  | inet6 => simp [bytes, SUN_PATH_LEN]
  | unix path =>
    have hle := path.length_le
    rw [SUN_PATH_LEN] at hle ⊢
    simp only [bytes, SUN_PATH_LEN, List.length_append, length_encode, List.length_replicate]
    omega

/-- The address fits into `sun_path` with the end of its path. -/
def Sockaddr.Fits : Sockaddr → Prop
  | unix path => path.bytes.length < SUN_PATH_LEN
  | _ => True

instance : (sa : Sockaddr) → Decidable sa.Fits
  | .inet .. => inferInstanceAs (Decidable True)
  | .inet6 .. => inferInstanceAs (Decidable True)
  | .unix path => inferInstanceAs (Decidable (path.bytes.length < SUN_PATH_LEN))

theorem unpackSocketAddress_managed (sa : Sockaddr) :
    unpackSocketAddress sa.managed = .ok (if sa.Fits then some sa.withoutFlow else none) := by
  cases sa with
  | inet => exact unpackSocketAddress_inet
  | inet6 => exact unpackSocketAddress_inet6 List.length_replicate _
  | unix path => exact unpackSocketAddress_unix path

theorem RoundTrips.of_determined {source : Source}
    (h : ∀ stack beyond, source.socketAddress stack beyond sa = some sa.managed)
    (hfits : sa.Fits) : RoundTrips source sa := by
  have hunpack := unpackSocketAddress_managed sa
  rw [if_pos hfits] at hunpack
  exact ⟨h, hunpack, hunpack, hunpack⟩

theorem RoundTrips.fits {source : Source} (h : RoundTrips source sa) : sa.Fits := by
  have hsame := Except.ok.inj ((unpackSocketAddress_managed sa).symm.trans h.bind)
  by_contra hfits
  rw [if_neg hfits] at hsame
  exact nomatch hsame

theorem getEndPointInfo_eq (beyond : ℕ → UInt8) (sa : Sockaddr) :
    getEndPointInfo beyond sa = some sa.managed := by
  have hsize : SUN_PATH_LEN + 3 ≤
      (List.replicate (END_POINT_MAX_PATH_LEN + 3) (0 : UInt8)).length := by
    rw [List.length_replicate]
    decide
  cases sa with
  | inet port address => exact convert_inet (Nat.le_trans (by decide) hsize)
  | inet6 port flowinfo address scope => exact convert_inet6 (Nat.le_trans (by decide) hsize)
  | unix path =>
    have hle := path.length_le
    by_cases hnil : path.bytes = []
    · exact convert_unix_unnamed hnil
    · exact convert_unix_of_size (by omega) hnil

theorem convert_unix_eq_some {bytes : List UInt8} (hsize : 2 ≤ buffer.length)
    (h : convert buffer info beyond (.unix path) = some bytes) :
    ∃ n, bytes.length = n + 3 ∧
      (n < (Sockaddr.unix path).reported.length →
        overlay 0 ((Sockaddr.unix path).reported.take buffer.length)
          (overlay 0 buffer beyond) (2 + n) = 0) ∧
      ∀ i < n, i < (Sockaddr.unix path).reported.length →
        overlay 0 ((Sockaddr.unix path).reported.take buffer.length)
          (overlay 0 buffer beyond) (2 + i) ≠ 0 := by
  have hfamily := family_read (.unix path) beyond hsize
  simp only [convert, socketaddrToEndpointInfo, hfamily, Sockaddr.family,
    convertDefineToAddressFamily, if_true, endPointInfoToSocketAddress] at h
  obtain ⟨n, hn, rfl⟩ := Option.map_eq_some_iff.1 h
  obtain ⟨hend, -, hbefore⟩ := List.find?_range_eq_some.1 hn
  refine ⟨n, ?_, fun hlt => ?_, fun i hi hlt => ?_⟩
  · simp only [List.length_append, length_encode, length_cellsAt, List.length_singleton]
    omega
  · exact (overlay_cellsAt hlt).symm.trans (of_decide_eq_true hend)
  · exact (overlay_cellsAt hlt).symm.trans_ne (by simpa using hbefore i hi)

theorem fits_of_convert {bytes : List UInt8} {stack : ℕ → UInt8} {family : AddressFamily}
    (hsize : 2 ≤ buffer.length) (hne : path.bytes ≠ [])
    (h : ∀ beyond, convert buffer ⟨family, stack⟩ beyond (.unix path) = some bytes) :
    path.bytes.length + 3 ≤ buffer.length := by
  by_contra hlt
  have hlength := length_reported_unix hne
  have hbeyond (beyond : ℕ → UInt8) : overlay 0 ((Sockaddr.unix path).reported.take buffer.length)
      (overlay 0 buffer beyond) (2 + (buffer.length - 2)) = beyond buffer.length := by
    rw [Nat.add_sub_cancel' hsize, overlay_of_ge (by rw [List.length_take]; omega),
      overlay_of_ge (by omega)]
  -- the end is found where the buffer ends, and then not later, and not there
  obtain ⟨n, hn, hend, hbefore⟩ := convert_unix_eq_some hsize (h fun _ => 0)
  obtain ⟨n', hn', hend', -⟩ := convert_unix_eq_some hsize (h fun _ => 1)
  obtain rfl : n = n' := by omega
  have hle : n ≤ buffer.length - 2 := by
    by_contra hlt'
    exact hbefore (buffer.length - 2) (by omega) (by omega) (hbeyond _)
  have hcases : n = buffer.length - 2 ∨ n < buffer.length - 2 := by omega
  rcases hcases with rfl | hlt'
  · exact absurd ((hbeyond _).symm.trans (hend' (by omega))) (by decide)
  · have hcell := hend (by omega)
    rw [overlay_reported_unix hne (by rw [List.length_append]; omega) (by omega),
      List.getElem_append_left (by omega)] at hcell
    exact path.no_nul _ (List.getElem_mem _) hcell

theorem receiveFrom_eq {request : List UInt8} {stack : ℕ → UInt8} {from_ : Sockaddr}
    (h : unpackSocketAddress request = .ok (some from_)) :
    receiveFrom request stack beyond sa =
      convert from_.bytes ⟨.kAddressFamilyError, stack⟩ beyond sa := by
  rw [receiveFrom, h]

theorem not_roundTrips_inet6 {request : List UInt8} {from_ : Sockaddr}
    (h : unpackSocketAddress request = .ok (some from_)) {a : Vector UInt8 16} :
    ¬RoundTrips (.sender request) (.inet6 port flowinfo a scope) := by
  intro hround
  have hbyte (stack : ℕ → UInt8) :
      (Sockaddr.inet6 port flowinfo a scope).managed[4]? = some (stack 4) := by
    obtain ⟨bytes, hconvert, hbyte⟩ := convert_inet6_flow
      (Nat.le_trans (by decide : 2 ≤ 16) from_.length_bytes.1)
    have hsame := (hround.determined stack fun _ => 0).symm.trans (receiveFrom_eq h)
    rw [hconvert] at hsame
    rw [Option.some.inj hsame, hbyte]
  exact absurd ((hbyte fun _ => 0).symm.trans (hbyte fun _ => 1)) (by simp)

/-- Where the promise is kept: not for an IPv6 sender, and for a path only where its end fits into
`sun_path` and into the buffer. -/
def Source.Keeps : Source → Sockaddr → Prop
  | sender request, sa => match sa with
    | .inet .. => True
    | .inet6 .. => False
    | .unix path => ∃ from_, unpackSocketAddress request = .ok (some from_) ∧
      path.bytes.length + 3 ≤ from_.bytes.length
  | _, sa => sa.Fits

/-- **Which addresses come back**, and in the same bytes each time. -/
theorem socketAddress_roundTrips_iff {source : Source} (h : source.Reports sa) :
    RoundTrips source sa ↔ source.Keeps sa := by
  cases source with
  | localEndPoint | remoteEndPoint =>
    exact ⟨RoundTrips.fits, RoundTrips.of_determined fun _ beyond => getEndPointInfo_eq beyond sa⟩
  | sender request =>
    obtain ⟨⟨from_, hrequest⟩, hnamed⟩ := h
    have hlength := from_.length_bytes
    cases sa with
    | inet port address =>
      refine iff_of_true (RoundTrips.of_determined (fun stack beyond => ?_) trivial) trivial
      exact (receiveFrom_eq hrequest).trans (convert_inet hlength.1)
    | inet6 port flowinfo address scope =>
      exact iff_of_false (not_roundTrips_inet6 hrequest) id
    | unix path =>
      have hne : path.bytes ≠ [] := fun hnil => hnamed (by simp [Sockaddr.reported, hnil])
      constructor
      · intro hround
        exact ⟨from_, hrequest, fits_of_convert (by omega) hne fun beyond =>
          (receiveFrom_eq hrequest).symm.trans (hround.determined (fun _ => 0) beyond)⟩
      · rintro ⟨from', hrequest', hfits⟩
        obtain rfl := Option.some.inj (Except.ok.inj (hrequest.symm.trans hrequest'))
        have hlt : path.bytes.length < SUN_PATH_LEN := by omega
        exact RoundTrips.of_determined (fun stack beyond => (receiveFrom_eq hrequest).trans
          (convert_unix_of_size hfits hne)) hlt

/-- The IPv4 sender of a datagram, with any address as the request. -/
theorem socketAddress_roundTrips_iff_sender :
    RoundTrips (.sender [2, 0, 0, 0, 0, 0, 0, 0]) (.inet 53 0x7F000001) ↔
      (Source.sender [2, 0, 0, 0, 0, 0, 0, 0]).Keeps (.inet 53 0x7F000001) :=
  socketAddress_roundTrips_iff ⟨⟨.inet 0 0, by decide⟩, by decide⟩

/-- The IPv6 sender of a datagram. -/
theorem not_socketAddress_roundTrips :
    (Source.sender (encode 2 23 ++ List.replicate 26 0)).Reports
      (.inet6 5353 0 (.replicate 16 1) 0) ∧
    ¬RoundTrips (.sender (encode 2 23 ++ List.replicate 26 0))
      (.inet6 5353 0 (.replicate 16 1) 0) := by
  have hrequest : unpackSocketAddress (encode 2 23 ++ List.replicate 26 0) =
      .ok (some (.inet6 0 0 (.replicate 16 0) 0)) := by decide
  exact ⟨⟨⟨_, hrequest⟩, by decide⟩, not_roundTrips_inet6 hrequest⟩

end SocketAddress

end Il2Cpp
