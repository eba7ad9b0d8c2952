import PulseImaging.UdpEmulation
import PulseImaging.Fate

/-! `parse_dhcp_options`: what the loop takes from the options of a reply, and the grammar of these. -/

namespace PulseImaging

/-- `netmask` and `arptable[ARP_GATEWAY].ipaddr`. -/
structure DhcpInfo where
  netmask : UInt32
  gateway : UInt32
  deriving DecidableEq

/-- `*(in_addr *) ptr`, of bytes that are there. -/
def inAddrAt (ptr : List Byte) : Fate UInt32 := if 4 ≤ ptr.length then .done (ulongAt ptr 0) else .fault

/-- The `switch`; `data` is `ptr + 2`. -/
def takeOption (code lg : Byte) (data : List Byte) (info : DhcpInfo) : Fate DhcpInfo :=
  if code = 1 then
    if lg = 4 then (inAddrAt data).bind (fun a => .done { info with netmask := a }) else .done info
  else if code = 3 then
    if lg = 4 then (inAddrAt data).bind (fun a => .done { info with gateway := a }) else .done info
  else .done info

def dhcpLoop : Nat → List Byte → DhcpInfo → Fate DhcpInfo
  | 0, _, _ => .more
  | _ + 1, [], _ => .fault
  | fuel + 1, code :: ptr, info =>
    if code = 0 then .done info
    else match ptr with
      | [] => .fault
      | lg :: data => (takeOption code lg data info).bind (dhcpLoop fuel (data.drop lg.toNat))

/-- Every turn goes on by two bytes at least. -/
def parseDhcpOptions (ptr : List Byte) (info : DhcpInfo) : Fate DhcpInfo := dhcpLoop (ptr.length + 1) ptr info

/-! ### The grammar -/

structure DhcpOption where
  code : Byte
  data : List Byte
  code_ne_pad : code ≠ 0
  code_ne_end : code ≠ 255
  length_le : data.length ≤ 255

inductive DhcpToken where
  | pad
  | option (o : DhcpOption)

def DhcpOption.encode (o : DhcpOption) : List Byte := o.code :: UInt8.ofNat o.data.length :: o.data

def DhcpToken.encode : DhcpToken → List Byte
  | pad => [0]
  | option o => o.encode

def DhcpToken.option? : DhcpToken → Option DhcpOption
  | pad => none
  | option o => some o

/-- The field up to `END`, which bytes of any kind follow. -/
def optionField (toks : List DhcpToken) (tail : List Byte) : List Byte :=
  toks.flatMap DhcpToken.encode ++ 255 :: tail

def DhcpOption.netmask? (o : DhcpOption) : Option UInt32 :=
  if o.code = 1 ∧ o.data.length = 4 then some (ulongAt o.data 0) else none

/-- The first address of a list of routers. -/
def DhcpOption.router? (o : DhcpOption) : Option UInt32 :=
  if o.code = 3 ∧ 0 < o.data.length ∧ 4 ∣ o.data.length then some (ulongAt o.data 0) else none

/-- The address of the only router. -/
def DhcpOption.soleRouter? (o : DhcpOption) : Option UInt32 :=
  if o.code = 3 ∧ o.data.length = 4 then some (ulongAt o.data 0) else none

/-- What the last option says that says something. -/
def lastOf (f : DhcpOption → Option UInt32) (os : List DhcpOption) : Option UInt32 := (os.filterMap f).getLast?

def optionsOf (toks : List DhcpToken) : List DhcpOption := toks.filterMap DhcpToken.option?

/-- Those in front of the first pad byte. -/
def optionsBeforePad (toks : List DhcpToken) : List DhcpOption :=
  optionsOf (toks.takeWhile (fun t => t.option?.isSome))

/-- The two options are taken wherever they are and nothing behind `END` matters. -/
def FollowsGrammar (toks : List DhcpToken) : Prop :=
  ∀ info, ∃ info', (∀ tail, parseDhcpOptions (optionField toks tail) info = .done info') ∧
    (∀ m, lastOf DhcpOption.netmask? (optionsOf toks) = some m → info'.netmask = m) ∧
    (∀ a, lastOf DhcpOption.router? (optionsOf toks) = some a → info'.gateway = a)

/-! ### One option -/

def DhcpOption.apply (o : DhcpOption) (info : DhcpInfo) : DhcpInfo :=
  ⟨o.netmask?.getD info.netmask, o.soleRouter?.getD info.gateway⟩

theorem ofNat_length_eq_four {data : List Byte} (h : data.length ≤ 255) :
    UInt8.ofNat data.length = 4 ↔ data.length = 4 := by
  rw [← UInt8.toNat_inj, UInt8.toNat_ofNat_of_lt' (show data.length < 256 by omega)]
  exact Iff.rfl

theorem inAddrAt_append {data rest : List Byte} (h : data.length = 4) :
    inAddrAt (data ++ rest) = .done (ulongAt data 0) := by
  rw [inAddrAt, if_pos (by rw [List.length_append]; omega), ulongAt, ulongAt, List.drop_zero,
    List.drop_zero, List.take_left' h, List.take_of_length_le h.le]

theorem takeOption_eq (o : DhcpOption) (rest : List Byte) (info : DhcpInfo) :
    takeOption o.code (UInt8.ofNat o.data.length) (o.data ++ rest) info = .done (o.apply info) := by
  have hfour := ofNat_length_eq_four o.length_le
  rw [takeOption]
  by_cases hmask : o.code = 1
  · have hrouter : o.soleRouter? = none := if_neg (fun h => absurd (hmask.symm.trans h.1) (by decide))
    rw [if_pos hmask, DhcpOption.apply, hrouter]
    by_cases hlg : o.data.length = 4
    · rw [if_pos (hfour.mpr hlg), inAddrAt_append hlg, DhcpOption.netmask?, if_pos ⟨hmask, hlg⟩]
      rfl
    · rw [if_neg (mt hfour.mp hlg), DhcpOption.netmask?, if_neg (fun h => hlg h.2)]
      rfl
  · have hnone : o.netmask? = none := if_neg (fun h => hmask h.1)
    rw [if_neg hmask, DhcpOption.apply, hnone]
    by_cases hthree : o.code = 3
    · rw [if_pos hthree]
      by_cases hlg : o.data.length = 4
      · rw [if_pos (hfour.mpr hlg), inAddrAt_append hlg, DhcpOption.soleRouter?, if_pos ⟨hthree, hlg⟩]
        rfl
      · rw [if_neg (mt hfour.mp hlg), DhcpOption.soleRouter?, if_neg (fun h => hlg h.2)]
        rfl
    · rw [if_neg hthree, DhcpOption.soleRouter?, if_neg (fun h => hthree h.1)]
      rfl

theorem dhcpLoop_option (o : DhcpOption) (rest : List Byte) (info : DhcpInfo) (fuel : Nat) :
    dhcpLoop (fuel + 1) (o.encode ++ rest) info = dhcpLoop fuel rest (o.apply info) := by
  rw [DhcpOption.encode, List.cons_append, List.cons_append, dhcpLoop, if_neg o.code_ne_pad]
  rw [takeOption_eq, Fate.bind_done, UInt8.toNat_ofNat_of_lt'
    (show o.data.length < 256 from Nat.lt_succ_of_le o.length_le),
    List.drop_left]

theorem dhcpLoop_options (os : List DhcpOption) (rest : List Byte) (info : DhcpInfo) (fuel : Nat) :
    dhcpLoop (fuel + os.length) (os.flatMap DhcpOption.encode ++ rest) info =
      dhcpLoop fuel rest (os.foldl (fun info o => o.apply info) info) := by
  induction os generalizing info with
  | nil => rfl
  | cons o os ih =>
    rw [List.flatMap_cons, List.append_assoc, List.length_cons, ← Nat.add_assoc, dhcpLoop_option,
      ih, List.foldl_cons]

theorem lastOf_append (f : DhcpOption → Option UInt32) (os : List DhcpOption) (o : DhcpOption) :
    lastOf f (os ++ [o]) = (f o).or (lastOf f os) := by
  rw [lastOf, List.filterMap_append]
  cases h : f o with
  | none => simp [h, lastOf]
  | some a => simp [h]

/-- The values that are left are those of the last options, or what was there. -/
theorem foldl_apply (os : List DhcpOption) (info : DhcpInfo) :
    os.foldl (fun info o => o.apply info) info =
      ⟨(lastOf DhcpOption.netmask? os).getD info.netmask,
        (lastOf DhcpOption.soleRouter? os).getD info.gateway⟩ := by
  induction os using List.reverseRecOn with
  | nil => rfl
  | append_singleton os o ih =>
    rw [List.foldl_append, List.foldl_cons, List.foldl_nil, ih, lastOf_append, lastOf_append,
      DhcpOption.apply]
    cases o.netmask? <;> cases o.soleRouter? <;> rfl

theorem parse_options (os : List DhcpOption) (rest : List Byte) (info : DhcpInfo) :
    ∃ fuel, rest.length < fuel ∧ parseDhcpOptions (os.flatMap DhcpOption.encode ++ rest) info =
      dhcpLoop fuel rest
        ⟨(lastOf DhcpOption.netmask? os).getD info.netmask,
          (lastOf DhcpOption.soleRouter? os).getD info.gateway⟩ := by
  have hle : os.length ≤ (os.flatMap DhcpOption.encode).length := by
    induction os with
    | nil => exact Nat.le_refl 0
    | cons o os ih =>
      rw [List.flatMap_cons, List.length_append, List.length_cons, DhcpOption.encode]
      simp only [List.length_cons]
      omega
  refine ⟨(os.flatMap DhcpOption.encode).length + rest.length + 1 - os.length, by omega, ?_⟩
  rw [← foldl_apply, ← dhcpLoop_options, parseDhcpOptions, List.length_append,
    Nat.sub_add_cancel (by omega)]

/-! ### The field -/

theorem optionField_pad {toks : List DhcpToken} (h : .pad ∈ toks) (tail : List Byte) :
    ∃ rest, optionField toks tail = (optionsBeforePad toks).flatMap DhcpOption.encode ++
      0 :: rest := by
  induction toks with
  | nil => exact absurd h List.not_mem_nil
  | cons t toks ih =>
    cases t with
    | pad => exact ⟨optionField toks tail, rfl⟩
    | option o =>
      obtain ⟨rest, hrest⟩ := ih ((List.mem_cons.mp h).resolve_left nofun)
      refine ⟨rest, ?_⟩
      calc optionField (.option o :: toks) tail
        _ = o.encode ++ optionField toks tail := by
          rw [optionField, List.flatMap_cons, List.append_assoc]
          rfl
        _ = (optionsBeforePad (.option o :: toks)).flatMap DhcpOption.encode ++ 0 :: rest := by
          rw [hrest, ← List.append_assoc]
          rfl

theorem optionField_no_pad {toks : List DhcpToken} (h : .pad ∉ toks) (tail : List Byte) :
    optionField toks tail = (optionsOf toks).flatMap DhcpOption.encode ++ 255 :: tail := by
  induction toks with
  | nil => rfl
  | cons t toks ih =>
    cases t with
    | pad => exact absurd List.mem_cons_self h
    | option o =>
      calc optionField (.option o :: toks) tail
        _ = o.encode ++ optionField toks tail := by
          rw [optionField, List.flatMap_cons, List.append_assoc]
          rfl
        _ = (optionsOf (.option o :: toks)).flatMap DhcpOption.encode ++ 255 :: tail := by
          rw [ih (fun hmem => h (List.mem_cons_of_mem _ hmem)), ← List.append_assoc]
          rfl

theorem parse_pad {toks : List DhcpToken} (h : .pad ∈ toks) (tail : List Byte) (info : DhcpInfo) :
    parseDhcpOptions (optionField toks tail) info =
      .done ⟨(lastOf DhcpOption.netmask? (optionsBeforePad toks)).getD info.netmask,
        (lastOf DhcpOption.soleRouter? (optionsBeforePad toks)).getD info.gateway⟩ := by
  obtain ⟨rest, hfield⟩ := optionField_pad h tail
  obtain ⟨fuel, hfuel, hparse⟩ := parse_options (optionsBeforePad toks) (0 :: rest) info
  obtain ⟨fuel, rfl⟩ := Nat.exists_eq_add_one_of_ne_zero (Nat.ne_of_gt (Nat.zero_lt_of_lt hfuel))
  rw [hfield, hparse]
  rfl

/-- `END` is taken for an option without data when a zero follows, and so is what comes behind it. -/
theorem parse_tail {toks : List DhcpToken} (h : .pad ∉ toks) (info : DhcpInfo) (a b c d : Byte) :
    ∃ gateway, parseDhcpOptions (optionField toks [0, 1, 4, a, b, c, d, 0]) info =
      .done ⟨ulongAt [a, b, c, d] 0, gateway⟩ := by
  obtain ⟨fuel, hfuel, hparse⟩ := parse_options (optionsOf toks)
    (255 :: [0, 1, 4, a, b, c, d, 0]) info
  obtain ⟨k, rfl⟩ : ∃ k, fuel = k + 3 := ⟨fuel - 3, by simp only [List.length_cons] at hfuel; omega⟩
  rw [optionField_no_pad h, hparse]
  exact ⟨_, rfl⟩

/-- With zeros behind `END` the options are taken as they are, but for a list of routers. -/
theorem parse_zeros {toks : List DhcpToken} (h : .pad ∉ toks) (tail : List Byte) (info : DhcpInfo) :
    parseDhcpOptions (optionField toks (0 :: 0 :: tail)) info =
      .done ⟨(lastOf DhcpOption.netmask? (optionsOf toks)).getD info.netmask,
        (lastOf DhcpOption.soleRouter? (optionsOf toks)).getD info.gateway⟩ := by
  obtain ⟨fuel, hfuel, hparse⟩ := parse_options (optionsOf toks) (255 :: 0 :: 0 :: tail) info
  obtain ⟨k, rfl⟩ : ∃ k, fuel = k + 2 := ⟨fuel - 2, by simp only [List.length_cons] at hfuel; omega⟩
  rw [optionField_no_pad h, hparse]
  rfl

/-- The grammar is followed when all that matters stands before a pad byte, and a list of routers does not count. -/
theorem dhcp_options_iff (toks : List DhcpToken) :
    FollowsGrammar toks ↔ .pad ∈ toks ∧
      (∀ m, lastOf DhcpOption.netmask? (optionsOf toks) = some m →
        lastOf DhcpOption.netmask? (optionsBeforePad toks) = some m) ∧
      (∀ a, lastOf DhcpOption.router? (optionsOf toks) = some a →
        lastOf DhcpOption.soleRouter? (optionsBeforePad toks) = some a) := by
  have hother : ∀ (o : Option UInt32) (v : UInt32), (∀ w, o.getD w = v) → o = some v := by
    intro o v h
    cases o with
    | none => exact absurd ((h 0).trans (h 1).symm) (by decide)
    | some w => rw [← h 0]; rfl
  constructor
  · intro h
    have hpad : .pad ∈ toks := by
      by_contra hno
      obtain ⟨info', htail, -⟩ := h ⟨0, 0⟩
      obtain ⟨g, hzero⟩ := parse_tail hno ⟨0, 0⟩ 0 0 0 0
      obtain ⟨g', hone⟩ := parse_tail hno ⟨0, 0⟩ 1 0 0 0
      have hmasks := (htail _).symm.trans hzero
      have hmasks' := (htail _).symm.trans hone
      obtain rfl := Fate.done.inj hmasks
      have heq : ulongAt [0, 0, 0, 0] 0 = ulongAt [1, 0, 0, 0] 0 :=
        congrArg DhcpInfo.netmask (Fate.done.inj hmasks')
      exact absurd heq (by decide)
    refine ⟨hpad, fun m hm => hother _ m (fun w => ?_), fun a ha => hother _ a (fun w => ?_)⟩
    · obtain ⟨info', hparse, hmask, -⟩ := h ⟨w, 0⟩
      have hdone := Fate.done.inj ((parse_pad hpad [] ⟨w, 0⟩).symm.trans (hparse []))
      rw [← hmask m hm, ← hdone]
    · obtain ⟨info', hparse, -, hrouter⟩ := h ⟨0, w⟩
      have hdone := Fate.done.inj ((parse_pad hpad [] ⟨0, w⟩).symm.trans (hparse []))
      rw [← hrouter a ha, ← hdone]
  · rintro ⟨hpad, hmask, hrouter⟩ info
    refine ⟨_, fun tail => parse_pad hpad tail info, fun m hm => ?_, fun a ha => ?_⟩
    · rw [hmask m hm]
      rfl
    · rw [hrouter a ha]
      rfl

/-- A reply whose only option is the mask 255.255.255.0. -/
def maskOption : DhcpOption := ⟨1, [255, 255, 255, 0], by decide, by decide, by decide⟩

theorem mask_only_not_followed : ¬ FollowsGrammar [.option maskOption] := by
  intro h
  obtain ⟨info', htail, hmask, -⟩ := h ⟨0, 0⟩
  have hsaid : info'.netmask = 0x00FFFFFF := hmask _ (by decide)
  have hstale : parseDhcpOptions (optionField [.option maskOption] [0, 1, 4, 255, 0, 0, 0, 0]) ⟨0,
      0⟩ = .done ⟨0x000000FF, 0⟩ := by decide
  obtain rfl := Fate.done.inj ((htail _).symm.trans hstale)
  exact absurd hsaid (by decide)

end PulseImaging
