import PulseImaging.LittleEndian

/-! `pxe_oeb` emulates the UDP part of PXE on top of a card driver; `udp.c` calls it.
Words are little-endian in memory and a frame has the 60 bytes of the Ethernet at least. -/

namespace PulseImaging

abbrev Mac := Vector Byte 6

def ushortBytes (v : UInt16) : List Byte := leBytes 2 v.toNat

def ulongBytes (v : UInt32) : List Byte := leBytes 4 v.toNat

/-- `*(unsigned short *) &packet[off]`. -/
def ushortAt (packet : List Byte) (off : Nat) : UInt16 := UInt16.ofNat (leValue ((packet.drop off).take 2))

/-- `*(unsigned long *) &packet[off]`. -/
def ulongAt (packet : List Byte) (off : Nat) : UInt32 := UInt32.ofNat (leValue ((packet.drop off).take 4))

def macAt (packet : List Byte) (off : Nat) : Mac := Vector.ofFn (fun i => packet.getD (off + i) 0)

def htons (a : UInt16) : UInt16 := ((a &&& 0xFF00) >>> 8) ||| ((a &&& 0x00FF) <<< 8)

/-- `(port>>8)|((port&255)<<8)`, stored in 16 bits. -/
def swapPort (port : Nat) : UInt16 := UInt16.ofNat ((port >>> 8) ||| ((port &&& 255) <<< 8))

/-- The network byte order of the constants is that of the bytes in memory. -/
def IP : UInt16 := 0x0008

def ARP : UInt16 := 0x0608

def ARP_REQ : UInt16 := 0x0100

def ARP_REPLY : UInt16 := 0x0200

def IP_TYPE : Nat := 0x0800

def ARP_TYPE : Nat := 0x0806

def UDP : Byte := 0x11

/-! ### The ARP table -/

structure ArpEntry where
  ipaddr : UInt32
  node : Mac

/-- `arptable`, whose first entry is the one of the client. -/
structure ArpTable where
  client : ArpEntry
  others : List ArpEntry

def arpUpdateFirst (ip : UInt32) (mac : Mac) : List ArpEntry → List ArpEntry
  | [] => []
  | e :: table => if e.ipaddr = ip then ⟨ip, mac⟩ :: table else e :: arpUpdateFirst ip mac table

def arpUpdate (ip : UInt32) (mac : Mac) (table : ArpTable) : ArpTable :=
  if table.client.ipaddr = ip then { table with client := ⟨ip, mac⟩ }
  else { table with others := arpUpdateFirst ip mac table.others }

/-- The loop over the table; an address that is missing or blank is asked for and the loop starts again. -/
def destmac (table : ArpTable) (gwip : UInt32) : Option Mac :=
  ((table.client :: table.others).find? (fun e => e.ipaddr == gwip)).bind
    (fun e => if e.node.toList.all (· == 0) then none else some e.node)

/-! ### Function 0x33 -/

structure UdpWrite where
  ip : UInt32
  gw : UInt32
  srcPort : UInt16
  dstPort : UInt16
  /-- `buffer_size` bytes at `BuffSeg:BuffOff` -/
  buffer : List Byte

def ipsum : Nat → List Byte → Nat
  | sum, a :: b :: s =>
    let sum := sum + (a.toNat + 256 * b.toNat)
    ipsum (if sum > 0xFFFF then sum - 0xFFFF else sum) s
  | sum, _ => sum

def ipchksum (s : List Byte) : UInt16 := ~~~ (UInt16.ofNat (ipsum 0 s))

def iphdr (len chksum : UInt16) (src dest : UInt32) : List Byte :=
  [0x45, 0] ++ ushortBytes len ++ ushortBytes 0 ++ ushortBytes 0 ++ [60, UDP] ++ ushortBytes chksum ++ ulongBytes src ++ ulongBytes dest

def udphdr (src dest len chksum : UInt16) : List Byte := ushortBytes src ++ ushortBytes dest ++ ushortBytes len ++ ushortBytes chksum

/-- The data of a packet of the type `IP_TYPE`. -/
def datagram (client : UInt32) (w : UdpWrite) : List Byte :=
  let len := htons (UInt16.ofNat (20 + 8 + w.buffer.length))
  iphdr len (ipchksum (iphdr len 0 client w.ip)) client w.ip ++
    udphdr w.srcPort w.dstPort (htons (UInt16.ofNat (w.buffer.length + 8))) 0 ++ w.buffer

/-- What the driver is given: the destination, the type and the data. -/
def pxeOeb33 (table : ArpTable) (netmask : UInt32) (w : UdpWrite) : Option (Mac × Nat × List Byte) :=
  let client := table.client.ipaddr
  let gwip := if w.ip &&& netmask ≠ client &&& netmask then w.gw else w.ip
  (destmac table gwip).map (fun mac => (mac, IP_TYPE, datagram client w))

/-- The driver puts the MAC header before the data and pads the frame. -/
def etherFrame (dest node : Mac) (type : Nat) (data pad : List Byte) : List Byte :=
  dest.toList ++ node.toList ++ [UInt8.ofNat (type / 256), UInt8.ofNat type] ++ data ++ pad

/-! ### Function 0x32 -/

structure UdpRead where
  status : UInt16
  srcIp : UInt32
  dstIp : UInt32
  srcPort : UInt16
  dstPort : UInt16
  bufferSize : Int
  /-- what has been stored at `BuffSeg:BuffOff` -/
  buffer : List Byte

/-- The answer to an ARP request: its destination and its 28 bytes. -/
def arpReply (packet : List Byte) (nicMac : Mac) (me : UInt32) : Mac × List Byte :=
  (macAt packet 22, (packet.drop 14).take 6 ++ ushortBytes ARP_REPLY ++ nicMac.toList ++ ulongBytes me ++
    (macAt packet 22).toList ++ (packet.drop 28).take 4)

/-- With the packet that the driver has got, if any: the structure, the table and what is sent. -/
def pxeOeb32 (table : ArpTable) (packet : Option (List Byte)) (r : UdpRead) :
    UdpRead × ArpTable × Option (Mac × Nat × List Byte) :=
  match packet with
  | none => ({ r with status := 1 }, table, none)
  | some packet =>
    if ushortAt packet 12 = IP ∧ packet.getD 14 0 = 0x45 ∧ packet.getD 23 0 = UDP ∧ ulongAt packet 30 = r.dstIp then
      if r.dstPort ≠ 0 ∧ r.dstPort ≠ ushortAt packet 36 then ({ r with status := 1 }, table, none)
      else
        let size := ((packet.length : Int) - 42).bmod (2 ^ 16)
        ({ r with
            status := 0
            srcIp := ulongAt packet 26
            srcPort := ushortAt packet 34
            bufferSize := size
            buffer := (packet.drop 42).take size.toNat }, table, none)
    else if ushortAt packet 12 = ARP ∧ ushortAt packet 20 = ARP_REQ ∧ ulongAt packet 38 = r.dstIp then
      let table := arpUpdate (ulongAt packet 28) (macAt packet 22) table
      let reply := arpReply packet table.client.node r.dstIp
      ({ r with status := 1 }, table, some (reply.1, ARP_TYPE, reply.2))
    else ({ r with status := 1 }, table, none)

/-! ### udp.c -/

/-- `ip` and `gw` are those of `udp_init`. -/
def udpSend (table : ArpTable) (netmask : UInt32) (w : UdpWrite) (buf : List Byte) (sPort dPort : Nat) :
    Option (Mac × Nat × List Byte) :=
  pxeOeb33 table netmask { w with buffer := buf, srcPort := swapPort sPort, dstPort := swapPort dPort }

/-- What `udp_get` finds: the size, the bytes, the source. -/
structure UdpGot where
  size : Int
  buf : List Byte
  srcIp : UInt32
  sPort : Nat

def udpGet (table : ArpTable) (packet : Option (List Byte)) (r : UdpRead) (dPort : Nat) : UdpRead × Option UdpGot :=
  let r' := (pxeOeb32 table packet { r with bufferSize := 2000, dstPort := swapPort dPort }).1
  if r'.status ≠ 0 then (r', none)
  else (r', some ⟨r'.bufferSize, r'.buffer, r'.srcIp, (swapPort r'.srcPort.toNat).toNat⟩)

/-! ### Words -/

theorem ushortBytes_length (v : UInt16) : (ushortBytes v).length = 2 := leBytes_length 2 v.toNat

theorem ulongBytes_length (v : UInt32) : (ulongBytes v).length = 4 := leBytes_length 4 v.toNat

theorem ushortBytes_value (v : UInt16) : UInt16.ofNat (leValue (ushortBytes v)) = v := by
  rw [ushortBytes, leValue_leBytes, Nat.mod_eq_of_lt (show v.toNat < 256 ^ 2 from v.toNat_lt),
    UInt16.ofNat_toNat]

theorem ulongBytes_value (v : UInt32) : UInt32.ofNat (leValue (ulongBytes v)) = v := by
  rw [ulongBytes, leValue_leBytes, Nat.mod_eq_of_lt (show v.toNat < 256 ^ 4 from v.toNat_lt),
    UInt32.ofNat_toNat]

theorem ushortAt_eq {packet s : List Byte} {off : Nat} {v : UInt16}
    (h : packet.drop off = ushortBytes v ++ s) :
    ushortAt packet off = v := by
  rw [ushortAt, h, List.take_left' (ushortBytes_length v), ushortBytes_value]

theorem ulongAt_eq {packet s : List Byte} {off : Nat} {v : UInt32}
    (h : packet.drop off = ulongBytes v ++ s) :
    ulongAt packet off = v := by
  rw [ulongAt, h, List.take_left' (ulongBytes_length v), ulongBytes_value]

theorem getD_eq {packet s : List Byte} {off : Nat} {b : Byte} (h : packet.drop off = b :: s) :
    packet.getD off 0 = b := by
  have hget : packet[off]? = some b := by rw [← Nat.add_zero off, ← List.getElem?_drop, h,
    List.getElem?_cons_zero]
  rw [List.getD_eq_getElem?_getD, hget, Option.getD_some]

theorem drop_next {packet a s : List Byte} {off : Nat} (n : Nat) (h : packet.drop off = a ++ s)
    (ha : a.length = n) :
    packet.drop (off + n) = s := by
  rw [← List.drop_drop, h, List.drop_left' ha]

theorem swapPort_eq {port : Nat} (h : port < 2 ^ 16) :
    (swapPort port).toNat = port / 256 + port % 256 * 256 := by
  have hor : (port >>> 8) ||| ((port &&& 255) <<< 8) = port / 256 + port % 256 * 256 := by
    have hlow : port >>> 8 < 2 ^ 8 := by
      rw [Nat.shiftRight_eq_div_pow]
      omega
    rw [Nat.or_comm, ← Nat.shiftLeft_add_eq_or_of_lt hlow, Nat.shiftRight_eq_div_pow,
      Nat.shiftLeft_eq,
      show port &&& 255 = port % 256 from Nat.and_two_pow_sub_one_eq_mod port 8, Nat.add_comm]
  rw [swapPort, hor]
  exact Nat.mod_eq_of_lt (by omega)

theorem swapPort_swapPort {port : Nat} (h : port < 2 ^ 16) :
    (swapPort (swapPort port).toNat).toNat = port := by
  rw [swapPort_eq (swapPort port).toNat_lt, swapPort_eq h]
  omega

theorem swapPort_inj {a b : Nat} (ha : a < 2 ^ 16) (hb : b < 2 ^ 16) (h : swapPort a = swapPort b) :
    a = b := by
  rw [← swapPort_swapPort ha, h, swapPort_swapPort hb]

/-! ### The frame -/

theorem etherFrame_fields (dest node : Mac) (client : UInt32) (w : UdpWrite) (pad : List Byte) :
    let frame := etherFrame dest node IP_TYPE (datagram client w) pad
    (ushortAt frame 12 = IP ∧ frame.getD 14 0 = 0x45 ∧ frame.getD 23 0 = UDP ∧
      ulongAt frame 30 = w.ip) ∧
      (ulongAt frame 26 = client ∧ ushortAt frame 34 = w.srcPort ∧ ushortAt frame 36 = w.dstPort) ∧
      frame.drop 42 = w.buffer ++ pad := by
  intro frame
  set len := htons (UInt16.ofNat (20 + 8 + w.buffer.length)) with hlen
  set chksum := ipchksum (iphdr len 0 client w.ip) with hchksum
  set udplen := htons (UInt16.ofNat (w.buffer.length + 8)) with hudplen
  have hframe : frame = (dest.toList ++ node.toList) ++ (ushortBytes IP ++
      ((0x45 :: ([0] ++ ushortBytes len ++ ushortBytes 0 ++ ushortBytes 0 ++ [60])) ++
      ((UDP :: ushortBytes chksum) ++
      (ulongBytes client ++ (ulongBytes w.ip ++
      (ushortBytes w.srcPort ++ (ushortBytes w.dstPort ++ ((ushortBytes udplen ++ ushortBytes 0) ++
      (w.buffer ++ pad))))))))) := by
    simp only [frame, etherFrame, datagram, iphdr, udphdr, List.append_assoc, List.cons_append,
      List.nil_append]
    rfl
  have h0 : frame.drop 0 = _ := hframe
  have h12 := drop_next 12 h0 (by simp)
  have h14 := drop_next 2 h12 (ushortBytes_length _)
  have h23 := drop_next 9 h14 (by simp [ushortBytes_length])
  have h26 := drop_next 3 h23 (by simp [ushortBytes_length])
  have h30 := drop_next 4 h26 (ulongBytes_length _)
  have h34 := drop_next 4 h30 (ulongBytes_length _)
  have h36 := drop_next 2 h34 (ushortBytes_length _)
  have h38 := drop_next 2 h36 (ushortBytes_length _)
  have h42 := drop_next 4 h38 (by simp [ushortBytes_length])
  exact ⟨⟨ushortAt_eq h12, getD_eq h14, getD_eq h23, ulongAt_eq h30⟩,
    ⟨ulongAt_eq h26, ushortAt_eq h34, ushortAt_eq h36⟩, h42⟩

theorem etherFrame_length (dest node : Mac) (client : UInt32) (w : UdpWrite) (pad : List Byte) :
    (etherFrame dest node IP_TYPE (datagram client w) pad).length =
      42 + w.buffer.length + pad.length := by
  simp [etherFrame, datagram, iphdr, udphdr, ushortBytes_length, ulongBytes_length]
  omega

theorem swapPort_ne_zero {port : Nat} (h : port < 2 ^ 16) (h0 : port ≠ 0) : swapPort port ≠ 0 :=
  fun hswap => h0 (swapPort_inj h (by decide) hswap)

/-- The host with the address of the datagram gets all that follows the headers. -/
theorem udpGet_frame {dest node : Mac} {client : UInt32} {w : UdpWrite} {pad : List Byte}
    {table : ArpTable} {r : UdpRead} {sPort dPort port : Nat} (hs : sPort < 2 ^ 16)
    (hd : dPort < 2 ^ 16) (hport : port < 2 ^ 16) (hip : r.dstIp = w.ip)
    (hsrc : w.srcPort = swapPort sPort) (hdst : w.dstPort = swapPort dPort)
    (hlong : w.buffer.length + pad.length < 2 ^ 15) :
    (udpGet table (some (etherFrame dest node IP_TYPE (datagram client w) pad)) r port).2 =
      if port ≠ 0 ∧ port ≠ dPort then none
      else some ⟨w.buffer.length + pad.length, w.buffer ++ pad, client, sPort⟩ := by
  obtain ⟨⟨h12, h14, h23, h30⟩, ⟨h26, h34, h36⟩, h42⟩ := etherFrame_fields dest node client w pad
  have hlen := etherFrame_length dest node client w pad
  set frame := etherFrame dest node IP_TYPE (datagram client w) pad
  have hsize : ((frame.length : Int) - 42).bmod (2 ^ 16) = w.buffer.length + pad.length := by
    rw [hlen, Int.bmod_eq_of_le (by omega) (by omega)]
    push_cast
    omega
  have htake : (frame.drop 42).take ((w.buffer.length : Int) + pad.length).toNat =
      w.buffer ++ pad := by
    rw [h42]
    exact List.take_of_length_le (by rw [List.length_append]; omega)
  have hfilter : (swapPort port ≠ 0 ∧ swapPort port ≠ w.dstPort) ↔ port ≠ 0 ∧ port ≠ dPort := by
    rw [hdst]
    constructor
    · rintro ⟨h0, hne⟩
      exact ⟨fun h => h0 (by rw [h]; rfl), fun h => hne (by rw [h])⟩
    · rintro ⟨h0, hne⟩
      exact ⟨swapPort_ne_zero hport h0, fun h => hne (swapPort_inj hport hd h)⟩
  have hread : pxeOeb32 table (some frame) { r with bufferSize := 2000, dstPort := swapPort port } =
      if swapPort port ≠ 0 ∧ swapPort port ≠ ushortAt frame 36 then _ else _ := if_pos ⟨h12, h14, h23, h30.trans hip.symm⟩
  rw [udpGet, hread, h36]
  by_cases hother : port ≠ 0 ∧ port ≠ dPort
  · rw [if_pos (hfilter.mpr hother), if_pos hother]
    rfl
  · rw [if_neg (mt hfilter.mp hother), if_neg hother]
    dsimp only
    rw [if_neg (fun h => h rfl), hsize, htake, h26, h34, hsrc, swapPort_swapPort hs]

/-- The payload arrives as it was sent, with its source, and at no other port. -/
def Delivered (table : ArpTable) (frame : List Byte) (r : UdpRead) (client : UInt32) (payload : List Byte)
    (sPort dPort : Nat) : Prop :=
  (udpGet table (some frame) r dPort).2 = some ⟨payload.length, payload, client, sPort⟩ ∧
    ∀ port < 2 ^ 16, port ≠ 0 → port ≠ dPort → (udpGet table (some frame) r port).2 = none

/-- A datagram is delivered if its frame needs no padding. -/
theorem udp_round_trip {table table' : ArpTable} {netmask : UInt32} {w : UdpWrite} {payload data pad : List Byte}
    {sPort dPort type : Nat} {dest node : Mac} {r : UdpRead} (hs : sPort < 2 ^ 16) (hd : dPort < 2 ^ 16)
    (hsend : udpSend table netmask w payload sPort dPort = some (dest, type, data)) (hip : r.dstIp = w.ip)
    (hmin : 60 ≤ (etherFrame dest node type data pad).length)
    (hmax : (etherFrame dest node type data pad).length ≤ 1514) :
    Delivered table' (etherFrame dest node type data pad) r table.client.ipaddr payload sPort dPort ↔
      18 ≤ payload.length ∧ pad = [] := by
  obtain ⟨mac, -, hdata⟩ := Option.map_eq_some_iff.mp hsend
  obtain ⟨rfl, rfl, rfl⟩ : mac = dest ∧ IP_TYPE = type ∧ _ = data := by simpa using hdata
  rw [etherFrame_length] at hmin hmax
  have hget {port : Nat} (hport : port < 2 ^ 16) := @udpGet_frame mac node table.client.ipaddr
    { w with buffer := payload, srcPort := swapPort sPort, dstPort := swapPort dPort } pad table' r sPort dPort port
    hs hd hport hip rfl rfl (by dsimp only at hmin hmax ⊢; omega)
  dsimp only at hmin hmax hget
  rw [Delivered, hget hd, if_neg (fun h => h.2 rfl)]
  constructor
  · rintro ⟨hsame, -⟩
    have hbuf : payload ++ pad = payload := by
      injection hsame with h
      injection h
    obtain rfl : pad = [] := by simpa using hbuf
    exact ⟨by rw [List.length_nil] at hmin; omega, rfl⟩
  · rintro ⟨-, rfl⟩
    refine ⟨by simp, fun port hport h0 hne => ?_⟩
    rw [hget hport, if_pos ⟨h0, hne⟩]

/-- The client 192.168.1.1 knows the server 192.168.1.2. -/
def twoHosts : ArpTable := ⟨⟨0x0101A8C0, #v[2, 0, 0, 0, 0, 1]⟩, [⟨0x0201A8C0, #v[2, 0, 0, 0, 0, 2]⟩]⟩

def toServer (payload : List Byte) : UdpWrite := ⟨0x0201A8C0, 0, swapPort 1001, swapPort 1001, payload⟩

def server : UdpRead := ⟨0, 0, 0x0201A8C0, 0, 0, 0, []⟩

theorem toServer_sent (payload : List Byte) :
    udpSend twoHosts 0x00FFFFFF (toServer []) payload 1001 1001 =
      some (#v[2, 0, 0, 0, 0, 2], IP_TYPE, datagram 0x0101A8C0 (toServer payload)) := by
  have hmac : destmac twoHosts 0x0201A8C0 = some #v[2, 0, 0, 0, 0, 2] := by decide
  rw [udpSend, pxeOeb33]
  dsimp only
  rw [if_neg (by decide)]
  exact congrArg (Option.map _) hmac

theorem udp_round_trip_eighteen :
    Delivered twoHosts (etherFrame #v[2, 0, 0, 0, 0, 2] #v[2, 0, 0, 0, 0, 1] IP_TYPE
      (datagram 0x0101A8C0 (toServer (List.replicate 18 7))) []) server 0x0101A8C0 (List.replicate 18 7) 1001 1001 :=
  (udp_round_trip (by decide) (by decide) (toServer_sent (List.replicate 18 7)) rfl
    (by rw [etherFrame_length]; decide) (by rw [etherFrame_length]; decide)).mpr ⟨by decide, rfl⟩

/-- The answer `OK` arrives with the padding of its frame. -/
theorem udpGet_padded :
    udpSend twoHosts 0x00FFFFFF (toServer []) [0x4F, 0x4B] 1001 1001 =
      some (#v[2, 0, 0, 0, 0, 2], IP_TYPE, datagram 0x0101A8C0 (toServer [0x4F, 0x4B])) ∧
    (etherFrame #v[2, 0, 0, 0, 0, 2] #v[2, 0, 0, 0, 0, 1] IP_TYPE
      (datagram 0x0101A8C0 (toServer [0x4F, 0x4B])) (List.replicate 16 1)).length = 60 ∧
    (udpGet twoHosts (some (etherFrame #v[2, 0, 0, 0, 0, 2] #v[2, 0, 0, 0, 0, 1] IP_TYPE
      (datagram 0x0101A8C0 (toServer [0x4F, 0x4B])) (List.replicate 16 1))) server 1001).2 =
      some ⟨18, [0x4F, 0x4B] ++ List.replicate 16 1, 0x0101A8C0, 1001⟩ ∧
    ¬ Delivered twoHosts (etherFrame #v[2, 0, 0, 0, 0, 2] #v[2, 0, 0, 0, 0, 1] IP_TYPE
      (datagram 0x0101A8C0 (toServer [0x4F, 0x4B])) (List.replicate 16 1)) server 0x0101A8C0 [0x4F, 0x4B] 1001 1001 := by
  have hget := @udpGet_frame #v[2, 0, 0, 0, 0, 2] #v[2, 0, 0, 0, 0, 1] 0x0101A8C0
    (toServer [0x4F, 0x4B])
    (List.replicate 16 1) twoHosts server 1001 1001 1001 (by decide) (by decide)
      (by decide) rfl rfl rfl (by decide)
  rw [if_neg (fun h => h.2 rfl)] at hget
  refine ⟨toServer_sent _, by rw [etherFrame_length]; decide, hget, fun h => ?_⟩
  have hbuf := hget.symm.trans h.1
  injection hbuf with hbuf
  injection hbuf with _ hbuf
  exact absurd hbuf (by decide)

end PulseImaging
